import TreeShell.Toml.Value

/-!
# What a Document Defines

A document defines values and tables one after the other, and a definition may not contradict an
earlier one. What was defined is kept by place: the keys that lead to it from the root, with the
number of the element wherever an array of tables is entered. Each place has a mark that says how it
came to be, because that decides what may still be added: a table that a header only passed through
may get a header of its own, one made by a dotted key may not, and one with a header takes no
dotted keys from outside.

## Main definitions

* `Toml.Mark`: How a place came to be.
* `Toml.Definitions`: The places with their marks.
* `Definitions.assign?`, `Definitions.openTable?`, `Definitions.openElement?`: The three ways to
  define something.
-/

namespace TreeShell.Toml

/-- One step to a place. -/
inductive Step where
  | key (name : String)
  /-- The element of an array of tables with a number. -/
  | element (index : Nat)
  deriving DecidableEq

/-- How a place came to be. -/
inductive Mark where
  /-- A value was assigned to it. -/
  | value (v : Value)
  /-- A header passed through it. -/
  | passed
  /-- A dotted key passed through it. -/
  | dotted
  /-- It is a table with a header of its own. -/
  | headed
  /-- It is an array of tables with so many elements. -/
  | tables (count : Nat)

/-- The places that are defined. -/
abbrev Definitions := List (List Step × Mark)

namespace Definitions

/-- The mark of a place. -/
def mark? (d : Definitions) (place : List Step) : Option Mark := d.lookup place

/-- Give a place a mark, in place of the one it had. -/
def put (d : Definitions) (place : List Step) (mark : Mark) : Definitions := (place, mark) :: d

/-- Go from a place along keys, through tables and into the last elements of arrays of tables. What
    is not there is made with the mark `made`. Dotted keys do not go through a table that has a
    header, and nothing goes through a value. -/
def descend? (made : Mark) (byDot : Bool) :
    List String → List Step → Definitions → Option (List Step × Definitions)
  | [], place, d => some (place, d)
  | name :: rest, place, d =>
    let next := place ++ [.key name]
    match d.mark? next with
    | none => descend? made byDot rest next (d.put next made)
    | some (.value _) => none
    | some .passed => descend? made byDot rest next d
    | some .dotted => descend? made byDot rest next d
    | some .headed => if byDot then none else descend? made byDot rest next d
    | some (.tables count) => descend? made byDot rest (next ++ [.element (count - 1)]) d

/-- Assign a value to a dotted key in the table at `here`. A key with dots must arrive in a table
    that dotted keys made. -/
def assign? (here : List Step) (keys : List String) (v : Value) (d : Definitions) :
    Option Definitions := do
  let last ← keys.getLast?
  let path := keys.dropLast
  let (place, d) ← d.descend? .dotted true path here
  let made := match d.mark? place with
    | some .dotted => true
    | _ => false
  let target := place ++ [.key last]
  if (path.isEmpty || made) && (d.mark? target).isNone then return d.put target (.value v)
  else none

/-- Open the table with a header: its place, and the definitions with it. -/
def openTable? (keys : List String) (d : Definitions) : Option (List Step × Definitions) := do
  let last ← keys.getLast?
  let (place, d) ← d.descend? .passed false keys.dropLast []
  let target := place ++ [.key last]
  match d.mark? target with
  | none => return (target, d.put target .headed)
  | some .passed => return (target, d.put target .headed)
  | some _ => none

/-- Open a further element of the array of tables with a header. -/
def openElement? (keys : List String) (d : Definitions) : Option (List Step × Definitions) := do
  let last ← keys.getLast?
  let (place, d) ← d.descend? .passed false keys.dropLast []
  let target := place ++ [.key last]
  match d.mark? target with
  | none => return (target ++ [.element 0], d.put target (.tables 1))
  | some (.tables count) => return (target ++ [.element count], d.put target (.tables (count + 1)))
  | some _ => none

/-- The values below the root with the keys that lead to them, in the order of assignment. -/
def values (d : Definitions) : List (List String × Value) :=
  d.reverse.filterMap fun (place, mark) =>
    match mark with
    | .value v => some (place.filterMap (fun
        | .key name => some name
        | .element _ => none), v)
    | _ => none

end Definitions

end TreeShell.Toml
