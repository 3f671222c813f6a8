/-!
# Values of a TOML Document

The values that a configuration can be given. Strings, whole numbers and truth values are kept by
what they mean; a number with a point and a date are checked and then kept as they are written,
because no setting is one.

## Main definitions

* `Toml.Value`: A value.
* `Toml.Parser`: Reads from the characters that are left, or fails.
-/

namespace TreeShell.Toml

/-- A value. -/
inductive Value where
  | string (text : String)
  | integer (number : Int)
  | float (written : String)
  | boolean (truth : Bool)
  | dateTime (written : String)
  | array (items : List Value)
  /-- An inline table: its values under their dotted keys. -/
  | table (entries : List (List String × Value))

/-- Reads from the characters that are left, and fails on the first departure from the format. -/
abbrev Parser := StateT (List Char) Option

/-- Take exactly the characters of `word`. -/
def word (word : List Char) : Parser Unit := fun s =>
  if word.isPrefixOf s then some ((), s.drop word.length) else none

/-- Take the characters for which `p` holds, up to the first for which it does not. -/
def run (p : Char → Bool) : Parser (List Char) := fun s => some (s.takeWhile p, s.dropWhile p)

/-- The same, where there must be at least one. -/
def run1 (p : Char → Bool) : Parser (List Char) := do
  let cs ← run p
  if cs.isEmpty then failure else return cs

/-- Take a number of characters, for all of which `p` holds. -/
def exactly (n : Nat) (p : Char → Bool) : Parser (List Char) := fun s =>
  let cs := s.take n
  if cs.length = n ∧ cs.all p then some (cs, s.drop n) else none

end TreeShell.Toml
