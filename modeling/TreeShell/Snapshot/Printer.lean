import TreeShell.Snapshot.Scan
import TreeShell.Tree.Basic

/-!
# Printing a Tree

The stored form of a tree is compact and keeps the order of the entries. Quotes, backslashes and
controls in a name are escaped, and every other character stands for itself.

## Main definitions

* `Snapshot.escape`, `Snapshot.quote`: A character, and a name, in a string literal.
* `Node.print`, `Dir.print`: The stored form.
* `Dir.snapshot`, `Node.snapshot`: The stored form as a text.
-/

namespace TreeShell

namespace Snapshot

/-- The lower-case hexadecimal digit of a number below sixteen. -/
def hexDigit (n : Nat) : Char :=
  Char.ofNat (if n < 10 then 0x30 + n else 0x57 + n)

/-- One character in a string literal. -/
def escape (c : Char) : List Char :=
  if c = '"' then ['\\', '"']
  else if c = '\\' then ['\\', '\\']
  else if c = '\x08' then ['\\', 'b']
  else if c = '\x0c' then ['\\', 'f']
  else if c = '\n' then ['\\', 'n']
  else if c = '\r' then ['\\', 'r']
  else if c = '\t' then ['\\', 't']
  else if c.toNat < 0x20 then
    ['\\', 'u', '0', '0', hexDigit (c.toNat / 16), hexDigit (c.toNat % 16)]
  else [c]

/-- A text as a string literal. -/
def quote (s : String) : List Char :=
  '"' :: (s.toList.flatMap escape ++ ['"'])

end Snapshot

mutual

/-- The stored form of a node. -/
def Node.print : Node → List Char
  | .dir .empty => ['{', '}']
  | .dir (.entry name node rest) =>
    '{' :: (Snapshot.quote name ++ ':' :: (node.print ++ rest.print))
  | .denied => ['n', 'u', 'l', 'l']
  | .file true => ['t', 'r', 'u', 'e']
  | .file false => ['f', 'a', 'l', 's', 'e']

/-- The entries from the second on, and the brace that ends the directory. -/
def Dir.print : Dir → List Char
  | .empty => ['}']
  | .entry name node rest => ',' :: (Snapshot.quote name ++ ':' :: (node.print ++ rest.print))

end

/-- The stored form of a node as a text. -/
def Node.snapshot (node : Node) : String := String.ofList node.print

/-- The stored form of a tree as a text. -/
def Dir.snapshot (root : Dir) : String := (Node.dir root).snapshot

end TreeShell
