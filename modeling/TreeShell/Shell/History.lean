/-!
# History

Every submitted line is recorded with the directory it was typed in, empty lines included. Users
only see the lines that are not empty, and these are numbered by their place among themselves, so
that a number once printed keeps its meaning.

## Main definitions

* `HistoryEntry`: A submitted line.
* `History.commands`: The lines that are not empty.
* `History.recent`: The last of them, numbered.
-/

namespace TreeShell

/-- A submitted line and the prompt form of the directory it was typed in. -/
structure HistoryEntry where
  cwd : String
  command : String
  deriving DecidableEq, Repr

namespace History

/-- The lines that are not empty, oldest first. -/
def commands (entries : List HistoryEntry) : List String :=
  (entries.map HistoryEntry.command).filter (· ≠ "")

/-- Each item with its place, counted from `first`. -/
def numbered (first : Nat) : List String → List (Nat × String)
  | [] => []
  | line :: rest => (first, line) :: numbered (first + 1) rest

/-- The last `limit` lines that are not empty, each with its place among all of them. -/
def recent (entries : List HistoryEntry) (limit : Nat) : List (Nat × String) :=
  let lines := commands entries
  let start := lines.length - limit
  numbered start (lines.drop start)

end History

end TreeShell
