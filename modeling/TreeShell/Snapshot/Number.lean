import TreeShell.Decimal.Shortest
import TreeShell.Snapshot.Scan

/-!
# Numbers in a Stored Tree

No tree holds a number, but a number where a node is expected is named in the refusal, and how it
is named depends on how it is written: a whole number within 64 bits by its digits, and any other
one as the double it is read as. A number too large for a double is a departure from the format and
not a value at all.

The significand keeps the leading digits as long as they fit 64 bits, and the digits that do not fit
only move the point.

## Main definitions

* `Snapshot.Numeral`: A number as it is written.
* `Snapshot.numeral`: Scans one.
* `Numeral.value?`: What it is read as.
-/

namespace TreeShell.Snapshot

/-- A number as it is written. -/
structure Numeral where
  negative : Bool
  whole : List Char
  /-- Empty where there is no point. -/
  fraction : List Char
  /-- The sign and digits of the exponent. -/
  exponent : Option (Bool × List Char)

/-- What a number is read as. -/
inductive Quantity where
  | integer (value : Int)
  | float (magnitude : Binary64) (negative : Bool)

/-- At least one digit. -/
def digits1 : Scanner (List Char) := fun s =>
  match s.takeWhile Char.isDigit, s with
  | [], [] => .error .truncated
  | [], _ :: _ => .error .malformed
  | ds, _ => .ok (ds, s.dropWhile Char.isDigit)

/-- The digits before the point. A leading zero stands alone. -/
def wholePart : Scanner (List Char) := fun s => do
  let (ds, rest) ← digits1 s
  match ds with
  | '0' :: _ :: _ => throw .malformed
  | _ => return (ds, rest)

/-- The digits after the point, if there is one. -/
def fractionPart : Scanner (List Char)
  | '.' :: rest => digits1 rest
  | s => .ok ([], s)

/-- The sign and digits of the exponent, if there is one. -/
def exponentPart : Scanner (Option (Bool × List Char)) := fun s =>
  let scaled (negative : Bool) (s : List Char) := do
    let (ds, rest) ← digits1 s
    return (some (negative, ds), rest)
  match s with
  | c :: rest =>
    if c = 'e' ∨ c = 'E' then
      match rest with
      | '-' :: rest => scaled true rest
      | '+' :: rest => scaled false rest
      | _ => scaled false rest
    else .ok (none, s)
  | [] => .ok (none, s)

/-- Scan a number. -/
def numeral : Scanner Numeral := fun s => do
  let (negative, s) := match s with
    | '-' :: rest => (true, rest)
    | _ => (false, s)
  let (whole, s) ← wholePart s
  let (fraction, s) ← fractionPart s
  let (exponent, s) ← exponentPart s
  return (⟨negative, whole, fraction, exponent⟩, s)

namespace Numeral

/-- The largest significand. -/
def maxSignificand : Nat := 0xffffffffffffffff

/-- The largest magnitude of a negative whole number. -/
def maxNegative : Nat := 0x8000000000000000

/-- The largest exponent that is counted. -/
def maxExponent : Nat := 0x7fffffff

/-- The value of a digit. -/
def digitValue (c : Char) : Nat := c.toNat - '0'.toNat

/-- The value of a list of digits. -/
def natural (ds : List Char) : Nat := ds.foldl (fun n c => n * 10 + digitValue c) 0

/-- Append digits to a significand as long as it fits, and count those that were left over. -/
def append (significand : Nat) : List Char → Nat × Nat
  | [] => (significand, 0)
  | c :: rest =>
    let next := significand * 10 + digitValue c
    if next ≤ maxSignificand then append next rest else (significand, rest.length + 1)

/-- What a number is read as; nothing where it is beyond the largest double. -/
def value? (n : Numeral) : Option Quantity :=
  let (significand, moved) := append 0 n.whole
  match n.fraction, n.exponent, moved with
  | [], none, 0 =>
    if ¬ n.negative then some (.integer significand)
    else if 0 < significand ∧ significand ≤ maxNegative then some (.integer (-significand))
    else (Binary64.ofRatio? significand 1).map (.float · true)
  | _, _, _ =>
    let (significand, left) := append significand n.fraction
    let shift : Int := moved - (n.fraction.length - left : Nat)
    let magnitude := match n.exponent with
      | none => Binary64.ofScaled? significand shift
      | some (negative, ds) =>
        let e := natural ds
        if e > maxExponent then
          if significand ≠ 0 ∧ ¬ negative then none else some .zero
        else Binary64.ofScaled? significand (if negative then shift - e else shift + e)
    magnitude.map (.float · n.negative)

end Numeral

/-- The name of a number in a message. -/
def Quantity.text : Quantity → String
  | .integer value => "integer `" ++ toString value ++ "`"
  | .float magnitude negative => "floating point `" ++ magnitude.text negative ++ "`"

end TreeShell.Snapshot
