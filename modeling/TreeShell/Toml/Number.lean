import TreeShell.Decimal.Binary64
import TreeShell.Toml.Lexeme

/-!
# Numbers and Dates

Digits may be grouped by underscores, each of which stands between two digits. A number has no
leading zero. Whole numbers are those of 64 bits, and one with a point or an exponent must not be
too large for a double, although it may be too small for one.

What begins like a date or a time has to be one.

## Main definitions

* `Toml.number`: A whole number, or one with a point or an exponent.
* `Toml.dateTime`: A date, a time, or both.
-/

namespace TreeShell.Toml

/-- Digits for which `p` holds, after the first one, with underscores between them. -/
def grouped (p : Char → Bool) : Nat → Parser (List Char)
  | 0 => failure
  | bound + 1 => do
    match ← get with
    | '_' :: c :: rest =>
      if p c then do set rest; return c :: (← grouped p bound) else failure
    | '_' :: [] => failure
    | c :: rest => if p c then do set rest; return c :: (← grouped p bound) else return []
    | [] => return []

/-- At least one digit for which `p` holds, with underscores between them. -/
def digits (p : Char → Bool) : Parser (List Char)
  | c :: rest => if p c then
      (grouped p (rest.length + 1) rest).map fun (cs, rest) => (c :: cs, rest)
    else none
  | [] => none

/-- The digits before a point: a lone zero, or digits without a leading one. -/
def wholeDigits : Parser (List Char)
  | '0' :: rest => some (['0'], rest)
  | s => digits Char.isDigit s

/-- The sign of a number, if it has one: whether it is a minus. -/
def sign? : Parser (Option Bool)
  | '+' :: rest => some (some false, rest)
  | '-' :: rest => some (some true, rest)
  | s => some (none, s)

/-- The value of digits in a base. -/
def valueIn (base : Nat) (ds : List Char) : Nat :=
  ds.foldl (fun n c => n * base + (Text.hexValue? c).getD 0) 0

/-- The least whole number. -/
def minInteger : Int := -0x8000000000000000

/-- The greatest whole number. -/
def maxInteger : Int := 0x7fffffffffffffff

/-- A whole number, which must have 64 bits. -/
def wholeNumber (negative : Bool) (magnitude : Nat) : Parser Value :=
  let n : Int := if negative then -magnitude else magnitude
  if minInteger ≤ n ∧ n ≤ maxInteger then return .integer n else failure

/-- Digits in base sixteen, eight or two, after their prefix. -/
def inBase (base : Nat) (p : Char → Bool) : Parser Value := do
  wholeNumber false (valueIn base (← digits p))

/-- The digits of an exponent with their sign, if there is one. -/
def exponent? : Parser (Option Int) := do
  match ← get with
  | c :: rest =>
    if c = 'e' ∨ c = 'E' then
      set rest
      let negative := (← sign?).getD false
      let n : Int := valueIn 10 (← digits Char.isDigit)
      return some (if negative then -n else n)
    else return none
  | [] => return none

/-- The digits after a point, if there is one. -/
def fraction? : Parser (Option (List Char)) := do
  match ← get with
  | '.' :: rest => do set rest; return some (← digits Char.isDigit)
  | _ => return none

/-- Whether `significand * 10 ^ power` is too large for a double. The number of digits decides
    unless it is near the limit. -/
def tooLarge (significand : Nat) (power : Int) : Bool :=
  let order := power + (Nat.toDigits 10 significand).length
  if significand = 0 ∨ order < 0 then false
  else if order > 400 then true
  else
    let (num, den) := if power ≥ 0 then (significand * Binary64.pow10 power.toNat, 1)
      else (significand, Binary64.pow10 (-power).toNat)
    (Binary64.ofRatio? num den).isNone

/-- A number in base ten, after its sign. Only a positive one can be too large. -/
def decimal (negative : Bool) : Parser Value := do
  let before ← get
  let whole ← wholeDigits
  let fraction ← fraction?
  let power ← exponent?
  if fraction.isNone ∧ power.isNone then wholeNumber negative (valueIn 10 whole)
  else
    let fraction := fraction.getD []
    if ¬ negative ∧ tooLarge (valueIn 10 (whole ++ fraction)) (power.getD 0 - fraction.length) then
      failure
    else
      let length := before.length - (← get).length
      return .float (String.ofList (before.take length))

/-- A number. Only an unsigned one can be in another base. -/
def number : Parser Value := do
  let sign ← sign?
  match ← get with
  | 'i' :: _ => do word ['i', 'n', 'f']; return .float "inf"
  | 'n' :: _ => do word ['n', 'a', 'n']; return .float "nan"
  | '0' :: c :: rest =>
    let based (base : Nat) (p : Char → Bool) : Parser Value :=
      if sign.isSome then decimal (sign.getD false) else do set rest; inBase base p
    if c = 'x' then based 16 fun c => (Text.hexValue? c).isSome
    else if c = 'o' then based 8 fun c => '0' ≤ c && c ≤ '7'
    else if c = 'b' then based 2 fun c => c = '0' || c = '1'
    else decimal (sign.getD false)
  | _ => decimal (sign.getD false)

/-- A number of exactly `n` digits from `lo` to `hi`. -/
def bounded (n lo hi : Nat) : Parser Nat := do
  let value := valueIn 10 (← exactly n Char.isDigit)
  if lo ≤ value ∧ value ≤ hi then return value else failure

/-- How many days a month has. -/
def daysIn (year month : Nat) : Nat :=
  if month = 2 then
    (if year % 4 = 0 ∧ (year % 100 ≠ 0 ∨ year % 400 = 0) then 29 else 28)
  else if month = 4 ∨ month = 6 ∨ month = 9 ∨ month = 11 then 30
  else 31

/-- A date. -/
def date : Parser Unit := do
  let year ← bounded 4 0 9999
  word ['-']
  let month ← bounded 2 1 12
  word ['-']
  let _ ← bounded 2 1 (daysIn year month)

/-- A time of day, with a leap second. -/
def time : Parser Unit := do
  let _ ← bounded 2 0 23
  word [':']
  let _ ← bounded 2 0 59
  word [':']
  let _ ← bounded 2 0 60
  match ← get with
  | '.' :: rest => do set rest; let _ ← run1 Char.isDigit
  | _ => return ()

/-- The offset of a time from UTC, if there is one. -/
def offset? : Parser Unit := do
  match ← get with
  | c :: rest =>
    if c = 'Z' ∨ c = 'z' then set rest
    else if c = '+' ∨ c = '-' then
      set rest
      let _ ← bounded 2 0 23
      word [':']
      let _ ← bounded 2 0 59
    else return ()
  | [] => return ()

/-- A date with the time that may follow it, after a `T` or a space. A space after which there is no
    time belongs to what follows. -/
def dateAndTime : Parser Unit := do
  date
  match ← get with
  | c :: d :: rest =>
    if c = 'T' ∨ c = 't' ∨ (c = ' ' ∧ d.isDigit) then do set (d :: rest); time; offset?
    else return ()
  | _ => return ()

/-- Whether digits that begin a value begin a date: four of them and a dash. -/
def beginsDate (s : List Char) : Bool := (s.take 4).all Char.isDigit && s[4]? == some '-'

/-- Whether digits that begin a value begin a time: two of them and a colon. -/
def beginsTime (s : List Char) : Bool := (s.take 2).all Char.isDigit && s[2]? == some ':'

/-- A date, a time, or both. -/
def dateTime (p : Parser Unit) : Parser Value := do
  let before ← get
  p
  return .dateTime (String.ofList (before.take (before.length - (← get).length)))

/-- A number or a date. -/
def numberOrDate : Parser Value := do
  let s ← get
  if beginsDate s then dateTime dateAndTime
  else if beginsTime s then dateTime time
  else number

end TreeShell.Toml
