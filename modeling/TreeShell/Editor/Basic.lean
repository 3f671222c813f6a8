import TreeShell.Tree.Lookup

/-!
# The Line Editor

The line that is being typed, and what two small machines remember about it. Scrolling keeps the
line the user left when it began; completion keeps the text it was begun on and the place of the
next candidate. The editor works on a `View` of the shell and not on the shell, so that it can be
used while a command runs.

## Main definitions

* `View`: What the editor knows of the shell.
* `Scroll`, `Completion`: What the two machines remember.
* `Editor`: The line with both.
-/

namespace TreeShell

/-- What the editor knows of the shell. -/
structure View where
  tree : Dir
  cwd : Path
  home : Path
  /-- The lines to scroll through, oldest first. -/
  history : List String
  /-- The names of commands to complete to, ascending. -/
  commands : List String

/-- Where the user is in the history. -/
inductive Scroll where
  /-- At the line being typed. -/
  | live
  /-- At an entry of the history; `saved` is the line to come back to. -/
  | browsing (index : Nat) (saved : String)
  deriving DecidableEq, Repr

/-- Whether candidates are being cycled through. -/
inductive Completion where
  | idle
  /-- The candidates are those of `snapshot`, and `next` is the place of the one to show next. -/
  | cycling (snapshot : String) (next : Nat)
  deriving DecidableEq, Repr

/-- The line being typed. -/
structure Editor where
  buffer : String := ""
  scroll : Scroll := .live
  completion : Completion := .idle
  deriving DecidableEq, Repr

namespace Editor

/-- Replace the line from outside. -/
def setBuffer (e : Editor) (text : String) : Editor :=
  { e with buffer := text, completion := .idle }

/-- Take the line, and start with an empty one. -/
def submit (e : Editor) : String × Editor := (e.buffer, {})

/-- Go one entry back in the history, from the live line to its newest entry. -/
def scrollUp (e : Editor) (history : List String) : Editor :=
  let goTo (index : Nat) (saved : String) : Editor :=
    { e with buffer := history[index]?.getD e.buffer, scroll := .browsing index saved }
  match e.scroll, history.length with
  | .live, 0 => e
  | .live, last + 1 => goTo last e.buffer
  | .browsing 0 _, _ => e
  | .browsing (index + 1) saved, _ => goTo index saved

/-- Go one entry forward in the history, and from the newest one back to the line that was left. -/
def scrollDown (e : Editor) (history : List String) : Editor :=
  match e.scroll with
  | .live => e
  | .browsing index saved =>
    match history[index + 1]? with
    | some line => { e with buffer := line, scroll := .browsing (index + 1) saved }
    | none => { e with buffer := saved, scroll := .live }

end Editor

end TreeShell
