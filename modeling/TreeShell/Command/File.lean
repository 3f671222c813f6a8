import TreeShell.Command.Registry
import TreeShell.Text.Blank

/-!
# Reading Files

The commands that show the contents of a file. A file below the mounted repository is asked for at
its path there, and any other under its whole path in object storage. Every check comes before the
request: a file that may not be read, or that the command would not show, is not fetched.

## Main definitions

* `Path.place`: Where the contents of the file at a path are kept.
* `Path.extension?`: The extension of a file.
* `cat`, `imgcat`, `openLink`: The commands.
-/

namespace TreeShell

namespace Path

/-- The key of a path in object storage. -/
def storageKey (p : Path) : String := joined p.segments

/-- Where the contents of the file at a path are kept: below the repository's root, in it. -/
def place (p repoRoot : Path) : Place :=
  match p.below? repoRoot with
  | some path => .repository path
  | none => .storage p.storageKey

/-- What follows the last dot of a name. -/
def extensionOf? (name : String) : Option String :=
  (Text.cutLast? '.' name.toList).map fun (_, after) => String.ofList after

/-- The extension of the file at a path. -/
def extension? (p : Path) : Option String := p.name?.bind extensionOf?

end Path

namespace Command

/-- The path of the readable file that `target` names. Complaints are about `target`, or about the
    whole path where `named` asks for it. -/
def readable (command target : String) (named : Bool) : CommandM Path := do
  let found ← CommandM.locate target
  found.requireFile command (if named then found.path.text else target)
  return found.path

/-- Print a text file. -/
def cat : Command where
  name := "cat"
  minArgs := 1
  maxArgs := 1
  run args := do
    let path ← readable "cat" (args.headD "") false
    let env ← get
    let text ← CommandM.demand "cat" (env.content.ask (.text (path.place env.repoRoot)))
    return .text text

/-- Show an image. -/
def imgcat : Command where
  name := "imgcat"
  minArgs := 1
  maxArgs := 1
  run args := do
    let path ← readable "imgcat" (args.headD "") false
    let env ← get
    if path.extension?.any env.config.isImage then
      let image ← CommandM.demand "imgcat" (env.content.ask (.image (path.place env.repoRoot)))
      modifyGet fun env =>
        let (handle, gallery) := env.gallery.register image
        (.image handle, { env with gallery })
    else CommandM.complain "imgcat" .fileFormat

/-- Open the link that a file holds. Link files are asked for in object storage wherever they
    are. -/
def openLink : Command where
  name := "open"
  minArgs := 1
  maxArgs := 1
  run args := do
    let path ← readable "open" (args.headD "") true
    let env ← get
    if path.extension? = some env.config.linkExtension then
      let text ← CommandM.demand "open" (env.content.ask (.text (.storage path.storageKey)))
      let url := Text.trim text
      if url = "" then CommandM.complain "open" .failed else return .url url
    else CommandM.complain "open" .fileFormat

end Command

end TreeShell
