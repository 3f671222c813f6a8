import TreeShell.Service.Image

/-!
# Output

What a line gives back. Outputs stay data until a host renders them, because a host may show a
listing as links or an image as a picture.

## Main definitions

* `Output`: The output of a line.
-/

namespace TreeShell

/-- The output of a line. -/
inductive Output where
  /-- Nothing to show. -/
  | none
  /-- Text of one or more lines; errors are text too. -/
  | text (text : String)
  /-- The names in a directory. -/
  | files (names : List String)
  /-- A fetched image, kept under a handle. -/
  | image (handle : ImageHandle)
  /-- Numbered lines of the history. -/
  | history (rows : List (Nat × String))
  /-- A link for the host to open. -/
  | url (url : String)
  /-- The wish to hide what was shown before. -/
  | clear
  /-- The line never comes back, so there is nothing to give. -/
  | never
  deriving DecidableEq, Repr

end TreeShell
