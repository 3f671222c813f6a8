import TreeShell.Text.Blank
import TreeShell.Text.Split

/-!
# Preview Images

Every place in the shell has a picture that was made beforehand, and its name is made of the path
and the command. A slash becomes two underscores, as does the joint between path and command, and
a space becomes one.

## Main definitions

* `previewKey`: The name of a picture.
-/

namespace TreeShell

/-- The part of a picture's name that stands for a path. -/
def previewPath (path : String) : List Char :=
  let below := match path.toList with
    | '/' :: rest => rest
    | all => all
  below.flatMap fun c => if c = '/' then ['_', '_'] else if c = '.' then ['-'] else [c]

/-- The part of a picture's name that stands for a command. -/
def previewCommand (command : String) : List Char :=
  (Text.trimChars command.toList).map fun c => if c = ' ' then '_' else c

/-- The name of the picture of `command` run at `path`. -/
def previewKey (path command : String) : String :=
  let command := previewCommand command
  String.ofList <|
    previewPath path ++ (if command = [] then [] else '_' :: '_' :: command) ++ ['.', 'p', 'n', 'g']

end TreeShell
