import TreeShell.Snapshot.Number

/-!
# Passing Over Values

What follows the reserved key of a denied directory is no part of the tree. It has to be a value of
the format, but nothing is made of it, and so it may nest without limit: the brackets that are open
are kept on a list instead of being followed by recursion. Numbers may have any magnitude here and
escapes need only be well formed.

## Main definitions

* `Snapshot.Bracket`: An open bracket.
* `Snapshot.Turn`: What may stand next.
* `Snapshot.passValue`: The place after a value.
-/

namespace TreeShell.Snapshot

/-- An open bracket. -/
inductive Bracket where
  | array
  | object
  deriving DecidableEq, Repr

/-- The character that closes a bracket. -/
def Bracket.close : Bracket → Char
  | .array => ']'
  | .object => '}'

/-- What may stand next while values are passed over. -/
inductive Turn where
  /-- A value. -/
  | value
  /-- The first item of the innermost bracket, or its end. -/
  | first
  /-- A comma and a further item of the innermost bracket, or its end. -/
  | next

/-- Pass a value that opens no bracket. A number must be well formed, and one that ends early is
    not. -/
def passScalar : List Char → Except ReadFault (List Char)
  | [] => .error .truncated
  | 'n' :: rest => word ['u', 'l', 'l'] rest
  | 't' :: rest => word ['r', 'u', 'e'] rest
  | 'f' :: rest => word ['a', 'l', 's', 'e'] rest
  | '"' :: rest => passLiteral rest
  | c :: rest =>
    if c = '-' ∨ c.isDigit then
      match numeral (c :: rest) with
      | .ok (_, rest) => .ok rest
      | .error _ => .error .malformed
    else .error .malformed

/-- The place after the colon that must stand next. -/
def colon (s : List Char) : Except ReadFault (List Char) := word [':'] (skipSpace s)

/-- Pass what comes before the value of an item: in an object a key and its colon, in an array
    nothing. -/
def passKey : Bracket → List Char → Except ReadFault (List Char)
  | .array, s => .ok s
  | .object, s => do colon (← passLiteral (← word ['"'] (skipSpace s)))

/-- Pass values until the open brackets are closed, in at most `bound` steps. -/
def passOpen : Nat → Turn → List Bracket → List Char → Except ReadFault (List Char)
  | 0, _, _, _ => .error .truncated
  | bound + 1, .value, opened, s =>
    match skipSpace s with
    | '[' :: rest => passOpen bound .first (.array :: opened) rest
    | '{' :: rest => passOpen bound .first (.object :: opened) rest
    | s => do passOpen bound .next opened (← passScalar s)
  | _ + 1, .next, [], s => .ok s
  | bound + 1, .next, b :: outer, s =>
    match skipSpace s with
    | [] => .error .truncated
    | c :: rest =>
      if c = ',' then do passOpen bound .value (b :: outer) (← passKey b rest)
      else if c = b.close then passOpen bound .next outer rest
      else .error .malformed
  | _ + 1, .first, [], s => .ok s
  | bound + 1, .first, b :: outer, s =>
    match skipSpace s with
    | [] => .error .truncated
    | c :: rest =>
      if c = b.close then passOpen bound .next outer rest
      else do passOpen bound .value (b :: outer) (← passKey b (c :: rest))

/-- The place after a value. At most two steps are taken for each character, which bounds them. -/
def passValue (s : List Char) : Except ReadFault (List Char) :=
  passOpen (2 * s.length + 2) .value [] s

end TreeShell.Snapshot
