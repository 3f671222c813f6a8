import TreeShell.Editor.Press
import TreeShell.Shell.Session

/-!
# The Console

A session together with the line being typed into it. Lines go to the session and keys to the
editor, with one exception: the key that clears the screen concerns the session alone.

## Main definitions

* `Console`: A session and its editor.
* `Console.handle`: The console after an event.
* `Console.submit`: Run the line being typed.
-/

namespace TreeShell

/-- A session and the line being typed into it. -/
structure Console where
  session : Session
  editor : Editor := {}

namespace Console

/-- Handle an event. There is an output only where a line ran or the screen was cleared. A line from
    the host discards the one being typed. -/
def handle (c : Console) : Event → Option Output × Console
  | .line text =>
    let (output, session) := c.session.run text
    (some output, ⟨session, c.editor.submit.2⟩)
  | .key .clearScreen => (some .clear, { c with session := c.session.hide })
  | .key key => (none, { c with editor := c.editor.press key c.session.view })

/-- Run the line being typed. -/
def submit (c : Console) : Output × Console :=
  let (line, editor) := c.editor.submit
  let (output, session) := c.session.run line
  (output, ⟨session, editor⟩)

end Console

end TreeShell
