import TreeShell.Editor.Complete
import TreeShell.Editor.Key

/-!
# Pressing Keys

Every key but the completion key ends a completion, and every key that edits the line leaves the
history and makes what is on the screen the live line.

## Main definitions

* `Editor.press`: The editor after a key.
-/

namespace TreeShell.Editor

/-- The editor after a key. -/
def press (e : Editor) (key : Key) (v : View) : Editor :=
  let idle := { e with completion := .idle }
  match key with
  | .char c => { idle with scroll := .live, buffer := e.buffer.push c }
  | .backspace =>
    { idle with scroll := .live, buffer := String.ofList e.buffer.toList.dropLast }
  | .arrowUp => idle.scrollUp v.history
  | .arrowDown => idle.scrollDown v.history
  | .tab => { e with scroll := .live }.complete v
  | .clearScreen => idle

end TreeShell.Editor
