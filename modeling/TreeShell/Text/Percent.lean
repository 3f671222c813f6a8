/-!
# Percent Encoding

A value placed in the query of a link must not be taken for the query's own structure. The encoder
keeps the few characters that never mean anything there and writes every other byte of the UTF-8
form as a percent sign and two digits, the space included. Nothing else leaves the encoder, so a
value can hold neither the `&` that would end it nor the `=` that would rename it.

The decoder beside it reads such a text back into bytes.

## Main definitions

* `Text.isPlain`: The characters that stand for themselves.
* `Text.percentEncode`: A text as a query component.
* `Text.percentDecode?`: The bytes a query component stands for.
-/

namespace TreeShell.Text

/-- The bytes of the UTF-8 form. -/
def utf8 (s : String) : List UInt8 :=
  s.toList.flatMap String.utf8EncodeChar

/-- ASCII letters, digits and `*-._` stand for themselves in a query. -/
def isPlain (b : UInt8) : Bool :=
  (0x30 ≤ b && b ≤ 0x39) || (0x41 ≤ b && b ≤ 0x5a) || (0x61 ≤ b && b ≤ 0x7a) ||
    b == 0x2a || b == 0x2d || b == 0x2e || b == 0x5f

/-- The upper-case hexadecimal digit of a number below sixteen. -/
def hexDigit (n : Nat) : Char :=
  Char.ofNat (if n < 10 then 0x30 + n else 0x37 + n)

/-- One byte of a query component. -/
def percentByte (b : UInt8) : List Char :=
  if isPlain b then [Char.ofNat b.toNat] else ['%', hexDigit (b.toNat / 16), hexDigit (b.toNat % 16)]

/-- `s` as a query component. -/
def percentEncode (s : String) : String :=
  String.ofList ((utf8 s).flatMap percentByte)

/-- The value of a hexadecimal digit, in either case. -/
def hexValue? (c : Char) : Option Nat :=
  if '0' ≤ c ∧ c ≤ '9' then some (c.toNat - 0x30)
  else if 'A' ≤ c ∧ c ≤ 'F' then some (c.toNat - 0x37)
  else if 'a' ≤ c ∧ c ≤ 'f' then some (c.toNat - 0x57)
  else none

/-- The bytes that a query component stands for: a percent sign takes the next two digits, any other
    character stands for its own UTF-8 bytes. `none` where a percent sign lacks its digits. -/
def percentDecode? : List Char → Option (List UInt8)
  | [] => some []
  | '%' :: hi :: lo :: rest => do
    let hi ← hexValue? hi
    let lo ← hexValue? lo
    let bytes ← percentDecode? rest
    return UInt8.ofNat (16 * hi + lo) :: bytes
  | c :: rest =>
    if c = '%' then none else (percentDecode? rest).map (String.utf8EncodeChar c ++ ·)

end TreeShell.Text
