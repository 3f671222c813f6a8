import TreeShell.Tree.Update

/-!
# Grafting the Repository

The repository does not come from object storage. Its tree is hung into the storage tree below the
home directory, and only where storage already has a readable `repositories` directory: without one
the user has not asked for a repository to be shown.

The place is looked for by reading its printed path as typed text, from the root.

## Main definitions

* `Path.repositories`: Where repositories hang below a home directory.
* `Dir.graft`: The storage tree with the repository hung into it.
-/

namespace TreeShell

/-- The directory below `home` that holds repositories. -/
def Path.repositories (home : Path) : Path := home.child "repositories"

/-- `storage` with `repo` under `name` in the repositories directory of `home`, if it has a readable
    one; else `storage` itself. -/
def Dir.graft (storage repo : Dir) (home : Path) (name : String) : Dir :=
  match (storage.resolve .root home home.repositories.text).node with
  | some (.dir _) => (storage.update (·.insert name (.dir repo)) home.repositories.segments).1
  | _ => storage

end TreeShell
