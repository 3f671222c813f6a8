/-!
# Faults

What the shell's collaborators and readers can fail with. A fault is a cause, kept apart from the
line a command prints: commands report a failed collaborator by one fixed text and never show the
detail to the user, so the detail lives here and the line lives with the commands.

## Main definitions

* `FileFault`, `ReadFault`, `Fault`: The causes.
* `Fault.message`: A fault as one line of text.
-/

namespace TreeShell

/-- Why the text of a file could not be had. -/
inductive FileFault where
  /-- There is no such file. -/
  | absent
  /-- Its bytes are not a UTF-8 text. -/
  | undecodable
  deriving DecidableEq, Repr

/-- Why a stored tree could not be read back. -/
inductive ReadFault where
  /-- The text departs from the format. -/
  | malformed
  /-- The text keeps to the format but ends too early. -/
  | truncated
  /-- A well-formed value stands where no tree can have one. -/
  | misfit (explanation : String)
  deriving DecidableEq, Repr

/-- A failure of a collaborator, of a file or of a reader. -/
inductive Fault where
  /-- A content backend refused or could not answer. -/
  | provider (detail : String)
  /-- The snapshot store refused. -/
  | persistence (detail : String)
  /-- The sign-in service refused. -/
  | identity (detail : String)
  /-- A stored text is a tree, but none that can be a root. -/
  | snapshot (detail : String)
  /-- A file could not be read. -/
  | file (cause : FileFault)
  /-- A configuration text is no configuration. -/
  | config
  /-- A stored text is no tree. -/
  | reading (cause : ReadFault)
  deriving DecidableEq, Repr

/-- A fault as one line of text. -/
def Fault.message : Fault → String
  | .provider detail => "provider error: " ++ detail
  | .persistence detail => "persistence error: " ++ detail
  | .identity detail => "identity error: " ++ detail
  | .snapshot detail => "snapshot error: " ++ detail
  | .file .absent => "file error: not found"
  | .file .undecodable => "file error: not a UTF-8 text"
  | .config => "configuration error"
  | .reading .malformed => "snapshot error: malformed text"
  | .reading .truncated => "snapshot error: text ends early"
  | .reading (.misfit explanation) => "snapshot error: " ++ explanation

end TreeShell
