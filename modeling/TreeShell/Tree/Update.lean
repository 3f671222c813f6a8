import TreeShell.Tree.Lookup

/-!
# Writing Below a Path

The builds fill a tree from the top, and each listing they receive belongs to a directory that may
or may not be there yet. `Dir.update` walks to it, creating the directories that are missing on the
way, and changes the one it arrives at. A file or a denied directory on the way stops the walk.

The tree that the walk leaves is returned whether or not it arrived. A walk that is stopped has
created nothing: a directory is only created where nothing stood, and below a new directory there
is nothing left to stop it.

## Main definitions

* `Dir.update`: Walk to a directory and change it.
* `Dir.ensure`: Walk to a directory and leave it as it is.

## Theorems

* `Dir.update_empty`: Nothing stops a walk through an empty directory.
-/

namespace TreeShell.Dir

/-- Walk from a directory along `segments`, creating readable directories where nothing stands, and
    apply `change` to the last one. Returns the tree after the walk and whether the walk arrived. -/
def update (change : Dir → Dir) : List String → Dir → Dir × Bool
  | [], d => (change d, true)
  | name :: rest, d =>
    match d.find? name with
    | none =>
      let (below, arrived) := update change rest .empty
      (d.insert name (.dir below), arrived)
    | some (.dir entries) =>
      let (below, arrived) := update change rest entries
      (d.insert name (.dir below), arrived)
    | some _ => (d, false)

/-- Walk along `segments` and create what is missing. -/
def ensure (segments : List String) (d : Dir) : Dir × Bool :=
  d.update id segments

/-- Nothing stops a walk through an empty directory. -/
theorem update_empty (change : Dir → Dir) (segments : List String) :
    (Dir.empty.update change segments).2 = true := by
  induction segments with
  | nil => rfl
  | cons name rest ih => simpa [update, find?] using ih

end TreeShell.Dir
