import TreeShell.Toml.Definitions
import TreeShell.Toml.Number

/-!
# Documents

A document is read line by line: a header opens a table, and a key with its value defines something
in the table that is open. Arrays and inline tables nest to a fixed depth, which is the measure of
the recursion, and keys have a bounded number of parts.

## Main definitions

* `Toml.maxDepth`: How deep values nest.
* `Toml.value`: A value.
* `Toml.Document`: The definitions so far and the open table.
* `Toml.parse?`: The definitions of a text.
-/

namespace TreeShell.Toml

/-- How deep arrays and inline tables nest, and how many parts a key has at most. -/
def maxDepth : Nat := 79

/-- The characters of a key without quotes. -/
def isBare (c : Char) : Bool := c.isAlphanum || c = '-' || c = '_'

/-- One part of a key, with the blanks around it. -/
def keyPart : Parser String := do
  let _ ← run isBlank
  let name ← match ← get with
    | '"' :: _ => short
    | '\'' :: _ => short
    | _ => run1 isBare
  let _ ← run isBlank
  return String.ofList name

/-- The parts of a key from the second on, at most `bound` of them. -/
def keyParts : Nat → Parser (List String)
  | 0 => failure
  | bound + 1 => do
    match ← get with
    | '.' :: rest => do
      set rest
      let name ← keyPart
      return name :: (← keyParts bound)
    | _ => return []

/-- A key. -/
def key : Parser (List String) := do
  let first ← keyPart
  let rest ← keyParts maxDepth
  return first :: rest

/-- The items of an array after its bracket or a comma, at most `bound` of them. -/
def items (value : Parser Value) : Nat → Parser (List Value)
  | 0 => failure
  | bound + 1 => do
    gap
    match ← get with
    | ']' :: rest => do set rest; return []
    | _ => do
      let v ← value
      gap
      match ← get with
      | ',' :: rest => do set rest; return v :: (← items value bound)
      | _ => do word [']']; return [v]

/-- A key with its value. -/
def assignment (value : Parser Value) : Parser (List String × Value) := do
  let keys ← key
  word ['=']
  let _ ← run isBlank
  return (keys, ← value)

/-- The entries of an inline table after its brace or a comma, at most `bound` of them, added to
    what is defined in it. There is no comma after the last one. -/
def entries (value : Parser Value) : Nat → Definitions → Parser Definitions
  | 0, _ => failure
  | bound + 1, d => do
    let (keys, v) ← assignment value
    let d ← (d.assign? [] keys v : Option Definitions)
    let _ ← run isBlank
    match ← get with
    | ',' :: rest => do set rest; entries value bound d
    | _ => do word ['\x7d']; return d

/-- An inline table, after its brace. -/
def inlineTable (value : Parser Value) : Parser Value := do
  let _ ← run isBlank
  match ← get with
  | '\x7d' :: rest => do set rest; return .table []
  | s => do return .table (← entries value (s.length + 1) []).values

/-- A value whose items, if it has any, are read by `inner`; without `inner` nothing may nest. -/
def valueWith (inner : Option (Parser Value)) : Parser Value := do
  match ← get with
  | [] => failure
  | c :: rest =>
    if c = '"' ∨ c = '\'' then return .string (← string)
    else if c = '[' then
      match inner with
      | some value => do set rest; return .array (← items value (rest.length + 1))
      | none => failure
    else if c = '\x7b' then
      match inner with
      | some value => do set rest; inlineTable value
      | none => failure
    else if c = 't' then do word ['t', 'r', 'u', 'e']; return .boolean true
    else if c = 'f' then do word ['f', 'a', 'l', 's', 'e']; return .boolean false
    else numberOrDate

/-- A value in which arrays and inline tables nest at most `depth` deep. -/
def value : Nat → Parser Value
  | 0 => valueWith none
  | depth + 1 => valueWith (some (value depth))

/-- What a document has defined so far, and the place of the table that is open. -/
structure Document where
  defined : Definitions := []
  here : List Step := []

/-- A header, after its first bracket. -/
def header (doc : Document) : Parser Document := do
  match ← get with
  | '[' :: rest => do
    set rest
    let keys ← key
    word [']', ']']
    lineEnd
    let (here, defined) ← (doc.defined.openElement? keys : Option (List Step × Definitions))
    return ⟨defined, here⟩
  | _ => do
    let keys ← key
    word [']']
    lineEnd
    let (here, defined) ← (doc.defined.openTable? keys : Option (List Step × Definitions))
    return ⟨defined, here⟩

/-- A key and its value on a line. -/
def line (doc : Document) : Parser Document := do
  let (keys, v) ← assignment (value maxDepth)
  lineEnd
  let defined ← (doc.defined.assign? doc.here keys v : Option Definitions)
  return { doc with defined }

/-- The lines of a document, at most `bound` of them. -/
def linesOf : Nat → Document → Parser Document
  | 0, _ => failure
  | bound + 1, doc => do
    let _ ← run isBlank
    match ← get with
    | [] => return doc
    | '[' :: rest => do set rest; linesOf bound (← header doc)
    | c :: _ =>
      if c = '#' ∨ c = '\n' ∨ c = '\r' then do lineEnd; linesOf bound doc
      else linesOf bound (← line doc)

/-- The definitions of a text. A byte order mark may stand before them. -/
def parse? (text : String) : Option Definitions :=
  let s := match text.toList with
    | '\ufeff' :: rest => rest
    | all => all
  (linesOf (s.length + 1) {} s).map fun (doc, _) => doc.defined

end TreeShell.Toml
