import TreeShell.Proofs.Tree.Folders

/-!
# A Census of the Directories

`Dir.folders` says where the readable directories of a tree are. Whoever writes a tree down level by
level needs the directories themselves as well, each with the way to it: one level of the written
form is one entry of this list. What was said of a tree by recursion is here said of the entries of
the list, so that a statement about the written form needs no recursion of its own.

The order is that of `Dir.folders`, with the later entry of a directory before the earlier one.

## Main definitions

* `Node.census`, `Dir.census`: The readable directories, with the paths to them.

## Theorems

* `Node.folders_eq`: Without the directories it is the list of their paths.
* `Node.everywhere_iff_census`: A property of every directory is a property of every entry.
-/

namespace TreeShell

mutual

/-- The readable directories at or below a node, with the paths to them. -/
def Node.census : Node → List (List String × Dir)
  | .dir entries => ([], entries) :: entries.censusBelow
  | .denied => []
  | .file _ => []

/-- The same for the directories below a directory, those of a later entry first. -/
def Dir.censusBelow : Dir → List (List String × Dir)
  | .empty => []
  | .entry name node rest =>
    rest.censusBelow ++ node.census.map fun place => (name :: place.1, place.2)

end

/-- The readable directories of a tree, the root included, with the paths to them. -/
def Dir.census (root : Dir) : List (List String × Dir) := (Node.dir root).census

mutual

/-- Without the directories the census is the list of their paths. -/
theorem Node.folders_eq : (node : Node) → node.folders = node.census.map Prod.fst
  | .dir entries => congrArg ([] :: ·) entries.foldersBelow_eq
  | .denied => rfl
  | .file _ => rfl

theorem Dir.foldersBelow_eq : (d : Dir) → d.foldersBelow = d.censusBelow.map Prod.fst
  | .empty => rfl
  | .entry name node rest => by
      rw [Dir.foldersBelow, Dir.censusBelow, rest.foldersBelow_eq, node.folders_eq, List.map_append,
        List.map_map, List.map_map]
      rfl

end

mutual

/-- A property of every directory is a property of every entry of the census. -/
theorem Node.everywhere_iff_census {P : Dir → Prop} :
    (node : Node) → (node.Everywhere P ↔ ∀ place ∈ node.census, P place.2)
  | .dir entries => by
      rw [Node.Everywhere, Node.census, List.forall_mem_cons, entries.below_iff_census]
  | .denied => ⟨fun _ _ h => (by cases h), fun _ => trivial⟩
  | .file _ => ⟨fun _ _ h => (by cases h), fun _ => trivial⟩

theorem Dir.below_iff_census {P : Dir → Prop} :
    (d : Dir) → (d.Below P ↔ ∀ place ∈ d.censusBelow, P place.2)
  | .empty => ⟨fun _ _ h => (by cases h), fun _ => trivial⟩
  | .entry name node rest => by
      rw [Dir.Below, Dir.censusBelow, List.forall_mem_append, List.forall_mem_map,
        node.everywhere_iff_census, rest.below_iff_census, and_comm]

end

end TreeShell
