/-!
# Keys

The keys a host forwards. A host names its keys; every name that is one character is that character,
and a name that is none of the known ones is no key.

## Main definitions

* `Key`: A key.
* `Key.ofName?`: The key that a host means by a name.
* `Event`: What a host forwards.
-/

namespace TreeShell

/-- A key. -/
inductive Key where
  /-- A character typed into the line. -/
  | char (c : Char)
  | backspace
  | arrowUp
  | arrowDown
  | tab
  /-- The key that clears the screen. -/
  | clearScreen
  deriving DecidableEq, Repr

/-- The key that a host means by a name. -/
def Key.ofName? (name : String) : Option Key :=
  if name = "ArrowUp" then some .arrowUp
  else if name = "ArrowDown" then some .arrowDown
  else if name = "Tab" then some .tab
  else if name = "Backspace" then some .backspace
  else if name = "Ctrl-L" then some .clearScreen
  else match name.toList with
    | [c] => some (.char c)
    | _ => none

/-- What a host forwards: a submitted line, which may be empty, or a key. -/
inductive Event where
  | line (text : String)
  | key (key : Key)
  deriving DecidableEq, Repr

end TreeShell
