import TreeShell.Command.Registry
import TreeShell.Text.Percent

/-!
# Session Commands

The commands about the session itself: the time, the lines so far, the screen, and a link to where
the user is.

## Main definitions

* `date`, `history`, `clear`, `share`: The commands.
* `shareLink`: The link that shares a path.
-/

namespace TreeShell

/-- The link that shares `path`: the text is encoded as a query value, and the address is appended
    as it is printed. -/
def shareLink (config : Config) (path : Path) : String :=
  config.shareUrl ++ "?text=" ++ Text.percentEncode config.shareText ++ "&url=" ++
    config.siteUrl ++ path.text

namespace Command

/-- Print the time. -/
def date : Command where
  name := "date"
  run _ := return .text (← get).clock.dateLine

/-- Print the last lines, numbered. -/
def history : Command where
  name := "history"
  run _ := do
    let env ← get
    return .history (History.recent env.history env.config.historyLimit)

/-- Hide what was shown before. -/
def clear : Command where
  name := "clear"
  run _ := return .clear

/-- Give a link that shares a path, or the working directory without one. What may not be read may
    still be shared, but not what does not exist. -/
def share : Command where
  name := "share"
  maxArgs := 1
  run
    | [] => do
      let env ← get
      return .url (shareLink env.config env.cwd)
    | target :: _ => do
      let found ← CommandM.locate target
      match found.node with
      | none => CommandM.complain "share" (.absent found.path.text)
      | some _ => return .url (shareLink (← get).config found.path)

end Command

end TreeShell
