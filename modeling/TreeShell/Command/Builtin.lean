import TreeShell.Command.Account
import TreeShell.Command.Directory
import TreeShell.Command.File
import TreeShell.Command.Session

/-!
# The Built-in Commands

The commands that every session knows.

## Main definitions

* `Registry.builtin`: The registry of a session.
-/

namespace TreeShell

/-- The commands of every session. -/
def Command.builtins : List Command :=
  [.cd, .pwd, .ls, .date, .cat, .imgcat, .history, .clear, .openLink, .share, .account]

/-- The registry of a session. -/
def Registry.builtin : Registry :=
  Command.builtins.foldl Registry.register {}

end TreeShell
