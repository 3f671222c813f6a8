import TreeShell.Fault
import TreeShell.Text.Percent

/-!
# Scanning a Stored Tree

A stored tree is one JSON document, read from left to right: the first departure from the format is
the one that is reported, and a text that ends too early is told apart from one that is wrong. A
scanner takes the characters that are left and returns what it read with the rest.

String literals are read twice over in this library, once for their text and once only to be passed
over, and the second reading is the laxer one: it checks the form of an escape but not whether the
code units it names form a character.

## Main definitions

* `Snapshot.Scanner`: Reads from the characters that are left.
* `Snapshot.literal`: The text of a string literal.
* `Snapshot.passLiteral`: The place after a string literal.
-/

namespace TreeShell.Snapshot

/-- Reads a value from the characters that are left, and returns it with the rest. -/
abbrev Scanner (α : Type) := List Char → Except ReadFault (α × List Char)

/-- The four blanks of the format. -/
def isSpace (c : Char) : Bool := c = ' ' || c = '\t' || c = '\n' || c = '\r'

/-- The characters from the next one that is not blank. -/
def skipSpace (s : List Char) : List Char := s.dropWhile isSpace

/-- Take exactly the characters of `word`. -/
def word : List Char → List Char → Except ReadFault (List Char)
  | [], s => .ok s
  | _ :: _, [] => .error .truncated
  | w :: ws, c :: rest => if c = w then word ws rest else .error .malformed

/-- The next four characters as a code unit. A text that ends within the next four bytes ends too
    early, whatever the bytes are. -/
def codeUnit : Scanner Nat
  | a :: b :: c :: d :: rest =>
    match Text.hexValue? a, Text.hexValue? b, Text.hexValue? c, Text.hexValue? d with
    | some a, some b, some c, some d => .ok (((a * 16 + b) * 16 + c) * 16 + d, rest)
    | _, _, _, _ => .error .malformed
  | s => .error (if (String.ofList s).utf8ByteSize < 4 then .truncated else .malformed)

/-- The code unit begins a pair. -/
def isLeading (unit : Nat) : Bool := 0xd800 ≤ unit && unit ≤ 0xdbff

/-- The code unit ends a pair. -/
def isTrailing (unit : Nat) : Bool := 0xdc00 ≤ unit && unit ≤ 0xdfff

/-- The code point of a pair of code units. -/
def paired (leading trailing : Nat) : Nat :=
  0x10000 + (leading - 0xd800) * 0x400 + (trailing - 0xdc00)

/-- The character that a `\u` escape names, after the `u`. A leading code unit must be followed by
    the escape of a trailing one, and a trailing one must follow a leading one. -/
def unicodeEscape : Scanner Char := fun s => do
  let (unit, s) ← codeUnit s
  if isTrailing unit then throw .malformed
  if isLeading unit then
    let s ← word ['\\', 'u'] s
    let (second, s) ← codeUnit s
    if isTrailing second then return (Char.ofNat (paired unit second), s)
    else throw .malformed
  else return (Char.ofNat unit, s)

/-- The characters that stand after a backslash for one character, and the characters they stand
    for. -/
def shortEscape? : Char → Option Char
  | '"' => some '"'
  | '\\' => some '\\'
  | '/' => some '/'
  | 'b' => some '\x08'
  | 'f' => some '\x0c'
  | 'n' => some '\n'
  | 'r' => some '\r'
  | 't' => some '\t'
  | _ => none

/-- One character inside a string literal, or none at its closing quote. -/
def literalChar : Scanner (Option Char)
  | [] => .error .truncated
  | '"' :: rest => .ok (none, rest)
  | '\\' :: rest =>
    match rest with
    | [] => .error .truncated
    | 'u' :: rest => do
      let (c, rest) ← unicodeEscape rest
      return (some c, rest)
    | c :: rest =>
      match shortEscape? c with
      | some c => .ok (some c, rest)
      | none => .error .malformed
  | c :: rest => if c.toNat < 0x20 then .error .malformed else .ok (some c, rest)

/-- Read characters up to the closing quote, at most `bound` of them. -/
def literalChars : Nat → Scanner (List Char)
  | 0, _ => .error .truncated
  | bound + 1, s => do
    match ← literalChar s with
    | (none, s) => return ([], s)
    | (some c, s) =>
      let (cs, s) ← literalChars bound s
      return (c :: cs, s)

/-- The text of a string literal, after its opening quote. Every character of the text takes one of
    the characters that are left, which bounds the reading. -/
def literal : Scanner String := fun s => do
  let (cs, s) ← literalChars (s.length + 1) s
  return (String.ofList cs, s)

/-- Pass one character inside a string literal: whether it was the closing quote, and the rest. -/
def passChar : Scanner Bool
  | [] => .error .truncated
  | '"' :: rest => .ok (true, rest)
  | '\\' :: rest =>
    match rest with
    | [] => .error .truncated
    | 'u' :: rest => do
      let (_, rest) ← codeUnit rest
      return (false, rest)
    | c :: rest => if (shortEscape? c).isSome then .ok (false, rest) else .error .malformed
  | c :: rest => if c.toNat < 0x20 then .error .malformed else .ok (false, rest)

/-- Pass characters up to the closing quote, at most `bound` of them. -/
def passChars : Nat → List Char → Except ReadFault (List Char)
  | 0, _ => .error .truncated
  | bound + 1, s => do
    let (closed, s) ← passChar s
    if closed then return s else passChars bound s

/-- The place after a string literal, after its opening quote. -/
def passLiteral (s : List Char) : Except ReadFault (List Char) := passChars (s.length + 1) s

end TreeShell.Snapshot
