/-!
# Failed Commands

A command that fails prints one line: its name, what it was asked for if that matters, and the
reason. The line never says what went wrong behind the shell; a refused collaborator shows as the
plain fact of an error.

## Main definitions

* `Complaint`: The reasons.
* `CommandError`: A reason with the command that gives it.
* `CommandError.message`: The line.
-/

namespace TreeShell

/-- Why a command failed. -/
inductive Complaint where
  /-- A collaborator refused. -/
  | failed
  /-- There is no such command. -/
  | unknown
  /-- An operand is missing. -/
  | missingOperand
  /-- There are more arguments than the command takes. -/
  | tooManyArguments
  /-- The file is of a kind the command does not show. -/
  | fileFormat
  /-- An option is wrong, or one is wanted. -/
  | invalidOption (name : Option String)
  /-- The file or directory may not be read. -/
  | denied (name : String)
  /-- There is nothing at the path. -/
  | absent (name : String)
  /-- There is a file where a directory is wanted. -/
  | notDirectory (name : String)
  /-- There is a directory where a file is wanted. -/
  | isDirectory (name : String)
  deriving DecidableEq, Repr

/-- The reason as it is printed after the command's name. -/
def Complaint.text : Complaint → String
  | failed => "An error has occurred"
  | unknown => "command not found"
  | missingOperand => "missing file operand"
  | tooManyArguments => "too many arguments"
  | fileFormat => "cannot use this file format"
  | invalidOption none => "invalid option"
  | invalidOption (some name) => name ++ ": invalid option"
  | denied name => name ++ ": Permission denied"
  | absent name => name ++ ": No such file or directory"
  | notDirectory name => name ++ ": Not a directory"
  | isDirectory name => name ++ ": Is a directory"

/-- A failed command. -/
structure CommandError where
  command : String
  complaint : Complaint
  deriving DecidableEq, Repr

/-- The line that a failed command prints. -/
def CommandError.message (e : CommandError) : String :=
  e.command ++ ": " ++ e.complaint.text

end TreeShell
