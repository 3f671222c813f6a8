import TreeShell.Decimal.Binary64

/-!
# Shortest Decimals

A double is printed with the fewest digits that still name it: the shortest decimal inside the
interval of numbers that round to it, and of several the nearest. The search tries one digit, then
two, and so on, on the two points of each decimal grid next to the value; seventeen digits always
suffice.

How the digits are laid out is a separate decision, and belongs to the format that prints them.

## Main definitions

* `Digits`: A decimal as its digits and the place of its point.
* `Binary64.shortest`: The fewest digits that name a double.
* `Digits.layout`: Digits with a point, or with an exponent beyond sixteen places.
-/

namespace TreeShell

/-- The decimal `0.d₁d₂… * 10 ^ point`. -/
structure Digits where
  digits : List Char
  point : Int
  deriving DecidableEq, Repr

namespace Binary64

/-- Whether `d * 10 ^ e` rounds to `x`: it lies between the halfway points to the neighbours of `x`,
    and the halfway points themselves belong to an even mantissa. The gap below a power of two is
    half as wide. -/
def named (x : Binary64) (d : Nat) (e : Int) : Bool :=
  let narrow := x.mantissa = pow2 52 ∧ x.exponent > minExponent
  let low := 4 * x.mantissa - (if narrow then 1 else 2)
  let high := 4 * x.mantissa + 2
  -- Compare `d * 10 ^ e` with quarters of the last binary place.
  let (num, den) := shifted (if e ≥ 0 then d * pow10 e.toNat else d)
    (if e ≥ 0 then 1 else pow10 (-e).toNat) (x.exponent - 2)
  if x.mantissa % 2 = 0 then low * den ≤ num && num ≤ high * den
  else low * den < num && num < high * den

/-- The least `k` with `num / den < 10 ^ k`. -/
def scale (num den : Nat) : Int :=
  let k := Int.ofNat (Nat.toDigits 10 num).length - Int.ofNat (Nat.toDigits 10 den).length
  let small := if k ≥ 0 then num < den * pow10 k.toNat else num * pow10 (-k).toNat < den
  if small then k else k + 1

/-- The decimal of `n` digits that names `x`, if there is one. -/
def withDigits? (x : Binary64) (k : Int) (n : Nat) : Option Nat :=
  let (num, den) := x.ratio
  let e := k - n
  let (num, den) := if e ≥ 0 then (num, den * pow10 e.toNat) else (num * pow10 (-e).toNat, den)
  let below := num / den
  match x.named below e, x.named (below + 1) e with
  | true, true => some (nearest num den)
  | true, false => some below
  | false, true => some (below + 1)
  | false, false => none

/-- The fewest digits that name a positive double. -/
def shortest (x : Binary64) : Digits :=
  let (num, den) := x.ratio
  let k := scale num den
  match (List.range 17).findSome? fun i => (x.withDigits? k (i + 1)).map (·, i + 1) with
  | some (d, n) =>
    let ds := Nat.toDigits 10 d
    -- Rounding up to the next power of ten adds a digit.
    ⟨(ds.reverse.dropWhile (· = '0')).reverse, k + ds.length - n⟩
  | none => ⟨Nat.toDigits 10 (num / den), (Nat.toDigits 10 (num / den)).length⟩

end Binary64

namespace Digits

/-- Digits with a point where the first digit stands at most sixteen places before it or five after
    it, and with a signed exponent elsewhere. A whole number shows one zero after the point. -/
def layout (x : Digits) : List Char :=
  let n := x.digits.length
  if 0 < x.point ∧ x.point ≤ 16 then
    let p := x.point.toNat
    if n ≤ p then x.digits ++ List.replicate (p - n) '0' ++ ['.', '0']
    else x.digits.take p ++ '.' :: x.digits.drop p
  else if -5 < x.point ∧ x.point ≤ 0 then
    '0' :: '.' :: List.replicate (-x.point).toNat '0' ++ x.digits
  else
    let e := x.point - 1
    let fraction := if n ≤ 1 then [] else '.' :: x.digits.drop 1
    x.digits.take 1 ++ fraction ++ 'e' :: (if e < 0 then '-' else '+') :: Nat.toDigits 10 e.natAbs

end Digits

/-- A double as text. -/
def Binary64.text (x : Binary64) (negative : Bool) : String :=
  let magnitude := if x.mantissa = 0 then ['0', '.', '0'] else x.shortest.layout
  String.ofList (if negative then '-' :: magnitude else magnitude)

end TreeShell
