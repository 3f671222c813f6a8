import TreeShell.Command.Registry

/-!
# Moving and Listing

The commands about directories. Their messages name the operand as it was typed, and `ls` without
one names the working directory, which may have gone from under the user when the tree was rebuilt.

## Main definitions

* `cd`, `pwd`, `ls`: The commands.
* `Dir.shown`: The names that a listing shows.
-/

namespace TreeShell

/-- Whether a name is left out of listings and completions. -/
def isHiddenName (name : String) : Bool := Text.startsWith "." name

/-- The names that a listing shows, directories with a slash. -/
def Dir.shown (d : Dir) (all : Bool) : List String :=
  (d.toList.filter fun (name, _) => all || !isHiddenName name).map fun (name, node) =>
    if node.isDir then name ++ "/" else name

namespace Command

/-- Go to a directory, or home without one. -/
def cd : Command where
  name := "cd"
  maxArgs := 1
  run
    | [] => do
      modify fun env => { env with cwd := env.home }
      return .none
    | target :: _ => do
      let found ← CommandM.locate target
      let _ ← found.requireDir "cd" target
      modify fun env => { env with cwd := found.path }
      return .none

/-- Print the working directory. -/
def pwd : Command where
  name := "pwd"
  run _ := return .text (← get).cwd.text

/-- List a directory, or name a file. The option `-a` also shows hidden names. -/
def ls : Command where
  name := "ls"
  maxArgs := 2
  takesOptions := true
  run args := do
    let (options, operands) := args.partition isOption
    if operands.length > 1 then CommandM.complain "ls" .tooManyArguments
    else match options.find? (· ≠ "-a") with
      | some option => CommandM.complain "ls" (.invalidOption (some option))
      | none =>
        let target := operands.headD (← get).cwd.text
        let found ← CommandM.locate target
        match found.node with
        | some (.file _) => return .text (found.path.name?.getD "")
        | _ =>
          let entries ← found.requireDir "ls" target
          return .files (entries.shown (!options.isEmpty))

end Command

end TreeShell
