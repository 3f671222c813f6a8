import TreeShell.Command.Argv
import TreeShell.Command.Environment

/-!
# The Registry

Commands are looked up by name and pass one gate before they run: the registry counts their
arguments and turns away options that they do not take. A command therefore never sees an argument
list outside the range it declares, and need not check for one.

## Main definitions

* `Command`: A command with the range it declares.
* `Registry`: The known commands.
* `Command.refusal?`: The gate.
* `Registry.dispatch`, `Registry.execute`: Run words, and a line.
* `Registry.completions`: The names offered for a beginning.
-/

namespace TreeShell

/-- A command. -/
structure Command where
  name : String
  /-- Commands of the category `admin` are not offered for completion. -/
  category : String := "general"
  minArgs : Nat := 0
  maxArgs : Nat := 0
  /-- Whether arguments that begin with a dash are for the command to judge. -/
  takesOptions : Bool := false
  run : List String → CommandM Output

/-- Whether an argument looks like an option. -/
def isOption (arg : String) : Bool := Text.startsWith "-" arg

/-- The complaint of the gate about an argument list: too many, too few, or the first option where
    none is taken. -/
def Command.refusal? (c : Command) (args : List String) : Option Complaint :=
  if args.length > c.maxArgs then some .tooManyArguments
  else if args.length < c.minArgs then some .missingOperand
  else if c.takesOptions then none
  else (args.find? isOption).map fun option => .invalidOption (some option)

/-- The known commands, at most one of a name. -/
structure Registry where
  commands : List Command := []

namespace Registry

/-- Add a command in place of the one that has its name. -/
def register (r : Registry) (c : Command) : Registry :=
  ⟨c :: r.commands.filter (·.name ≠ c.name)⟩

/-- The command with a name. -/
def find? (r : Registry) (name : String) : Option Command :=
  r.commands.find? (·.name == name)

/-- Run words: the first names the command. Errors come back as the line to print. -/
def dispatch (r : Registry) (argv : List String) (env : Environment) : Output × Environment :=
  match argv with
  | [] => (.none, env)
  | name :: args =>
    let complain (complaint : Complaint) := Output.text (CommandError.message ⟨name, complaint⟩)
    match r.find? name with
    | none => (complain .unknown, env)
    | some command =>
      match command.refusal? args with
      | some complaint => (complain complaint, env)
      | none =>
        match (command.run args).outcome env with
        | (.ok output, env) => (output, env)
        | (.error error, env) => (.text error.message, env)

/-- Run a line. -/
def execute (r : Registry) (line : String) (env : Environment) : Output × Environment :=
  r.dispatch (words line) env

/-- The names that begin with `start`, in ascending order, without those of admin commands. -/
def completions (r : Registry) (start : String) : List String :=
  ((r.commands.filter fun c => c.category ≠ "admin" && Text.startsWith start c.name).map
    Command.name).mergeSort

/-- All names that are offered. -/
def names (r : Registry) : List String := r.completions ""

end Registry

end TreeShell
