import TreeShell.Command.Argv
import TreeShell.Command.Directory
import TreeShell.Editor.Basic

/-!
# Completion

The last word of the line is completed: the first word to the name of a command, and any other to an
entry of the directory that the word's part before its last slash names. Candidates are taken from
the text on which completion began, so that pressing on cycles through them instead of completing
what was just shown. They are looked up anew each time, because the tree may have changed.

## Main definitions

* `Draft`: The text before the last word, and that word.
* `View.candidates`: The part of the word to keep, and what may follow it.
* `Editor.complete`: Show the next candidate.
-/

namespace TreeShell

/-- A line cut before its last word. -/
structure Draft where
  /-- The text up to and including the last space. -/
  head : String
  /-- What follows the last space. -/
  word : String

namespace Draft

/-- A line cut after its last space. -/
def ofLine (line : String) : Draft :=
  match Text.cutLast? ' ' line.toList with
  | some (before, after) => ⟨String.ofList (before ++ [' ']), String.ofList after⟩
  | none => ⟨"", line⟩

/-- Whether the last word is the first one too. -/
def isFirst (d : Draft) : Bool := d.head.toList.all (· = ' ')

/-- The last word cut after its last slash: the directory it names, the part to keep, and the
    beginning of a name. Without a slash the directory is the working one. -/
def parts (d : Draft) : String × String × String :=
  match Text.cutLast? '/' d.word.toList with
  | some (before, after) =>
    (String.ofList before, String.ofList (before ++ ['/']), String.ofList after)
  | none => (".", "", d.word)

end Draft

/-- The part of the last word to keep, and the names that may follow it; none where the directory
    cannot be listed. Hidden names are never offered. -/
def View.candidates (v : View) (d : Draft) : String × List String :=
  if d.isFirst then ("", v.commands.filter (Text.startsWith d.word))
  else
    let (parent, kept, start) := d.parts
    match (v.tree.resolve v.cwd v.home parent).node with
    | some (.dir entries) =>
      (kept, entries.names.filter fun name => !isHiddenName name && Text.startsWith start name)
    | _ => (kept, [])

/-- Show the next candidate for the text on which completion began. -/
def Editor.complete (e : Editor) (v : View) : Editor :=
  let (snapshot, next) := match e.completion with
    | .cycling snapshot next => (snapshot, next)
    | .idle => (spaced e.buffer, 0)
  if snapshot = "" then e
  else
    let draft := Draft.ofLine snapshot
    let (kept, names) := v.candidates draft
    let pick := if next < names.length then next else 0
    match names[pick]? with
    | none => e
    | some name =>
      { e with
        buffer := draft.head ++ kept ++ name
        completion := .cycling snapshot (pick + 1) }

end TreeShell
