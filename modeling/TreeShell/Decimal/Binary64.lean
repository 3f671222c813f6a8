/-!
# Double Precision

A number in a text is measured by the double nearest to it, also where it is only read to be
refused: the refusal names the number as a double prints it, and a number beyond the largest double
is no number at all. Doubles are kept here as what they are, an integer times a power of two, and
rounded in exact arithmetic, so that nothing about them is opaque to a proof.

## Main definitions

* `Binary64`: A finite double without its sign.
* `Binary64.ofRatio?`: The double nearest to a fraction, ties going to the even neighbour.
* `Binary64.ofScaled?`: The double that a significand and a power of ten are read as.
-/

namespace TreeShell

/-- The finite double `mantissa * 2 ^ exponent`. -/
structure Binary64 where
  mantissa : Nat
  exponent : Int
  deriving DecidableEq, Repr

namespace Binary64

/-- The exponent of the doubles nearest to zero. -/
def minExponent : Int := -1074

/-- The exponent of the largest doubles. -/
def maxExponent : Int := 971

/-- Zero, which has the exponent of the smallest doubles. -/
def zero : Binary64 := ⟨0, minExponent⟩

/-- A power of two. -/
def pow2 (n : Nat) : Nat := Nat.pow 2 n

/-- A power of ten. -/
def pow10 (n : Nat) : Nat := Nat.pow 10 n

/-- `num / den * 2 ^ (-q)` as a fraction of naturals. -/
def shifted (num den : Nat) (q : Int) : Nat × Nat :=
  if q ≥ 0 then (num, den * pow2 q.toNat) else (num * pow2 (-q).toNat, den)

/-- A double as a fraction of naturals. -/
def ratio (x : Binary64) : Nat × Nat := shifted x.mantissa 1 (-x.exponent)

/-- The integer nearest to `num / den`; halfway, the even one. -/
def nearest (num den : Nat) : Nat :=
  let below := num / den
  let rest := num % den
  if 2 * rest < den then below
  else if 2 * rest > den then below + 1
  else below + below % 2

/-- The double nearest to `num / den`, or nothing where that is beyond the largest one. -/
def ofRatio? (num den : Nat) : Option Binary64 :=
  if num = 0 then some zero
  else
    -- The magnitude is known from the bit lengths up to one bit; look which of the two it is.
    let rough := max (Int.ofNat num.log2 - Int.ofNat den.log2 - 53) minExponent
    let (n, d) := shifted num den rough
    let q := if n / d ≥ pow2 53 then rough + 1 else rough
    let (n, d) := shifted num den q
    let m := nearest n d
    let x : Binary64 := if m = pow2 53 then ⟨pow2 52, q + 1⟩ else ⟨m, q⟩
    if x.exponent > maxExponent then none else some x

/-- The double nearest to `x * 10 ^ power`, the power itself taken as a double first. -/
def timesPower? (x : Binary64) (power : Nat) : Option Binary64 := do
  let p ← ofRatio? (pow10 power) 1
  let (n, d) := x.ratio
  let (pn, pd) := p.ratio
  ofRatio? (n * pn) (d * pd)

/-- The double nearest to `x / 10 ^ power`, the power itself taken as a double first. -/
def overPower? (x : Binary64) (power : Nat) : Option Binary64 := do
  let p ← ofRatio? (pow10 power) 1
  let (n, d) := x.ratio
  let (pn, pd) := p.ratio
  ofRatio? (n * pd) (d * pn)

/-- The largest power of ten that is a double. -/
def maxPower : Nat := 308

/-- `significand * 10 ^ power` read as a double in steps that each round: the significand, then the
    power. A power below the smallest table entry is taken off in portions; after three of them
    nothing is left of any significand below `2 ^ 64`. Nothing where the result is too large. -/
def ofScaled? (significand : Nat) (power : Int) : Option Binary64 := do
  let x ← ofRatio? significand 1
  if power ≥ 0 then
    if power.toNat ≤ maxPower then x.timesPower? power.toNat
    else if x.mantissa = 0 then return x
    else none
  else
    let portions := min 3 (((-power).toNat - 1) / maxPower)
    let x ← portions.repeat (fun acc => acc.bind (·.overPower? maxPower)) (some x)
    if x.mantissa = 0 then return x
    else x.overPower? ((-power).toNat - portions * maxPower)

end Binary64

end TreeShell
