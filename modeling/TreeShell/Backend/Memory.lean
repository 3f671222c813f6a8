import TreeShell.Backend.Content

/-!
# A Provider Held in Memory

For a demonstration, and as the example on which everything else can be tried, both backends are
kept in tables. The storage tables are made from a tree, by writing its access marks back into the
raw names; the repository's trees are numbered in the order in which a walk through the given tree
enters them. What the builds make of such tables is the given tree again.

Tables are lists of pairs in which the first pair of a key counts, so a later entry is put in front
of an earlier one.

## Main definitions

* `Table`: A finite map.
* `Dir.listings`: The listings that stand for a tree.
* `Dir.objects`: The repository objects that stand for a tree.
* `committedTrees`: The repository objects of all commits.
* `MemoryContent`: The tables of both backends.
* `MemoryContent.provider`: The provider that answers from them.
-/

namespace TreeShell

/-- A finite map: the first pair with a key counts. -/
abbrev Table (α : Type) := List (String × α)

namespace StorageEntry

/-- The raw name of a node that is shown as `name`. -/
def encode (name : String) : Node → StorageEntry
  | .dir _ => ⟨.folder, name⟩
  | .denied => ⟨.folder, name ++ ":"⟩
  | .file true => ⟨.object, name⟩
  | .file false => ⟨.object, name ++ ":"⟩

end StorageEntry

mutual

/-- The listings of a readable directory at `under` and of those below it. -/
def Node.listings (under : String) : Node → Table (List StorageEntry)
  | .dir entries =>
    (under, entries.toList.map fun e => StorageEntry.encode e.1 e.2) :: entries.listingsBelow under
  | .denied => []
  | .file _ => []

/-- The listings of the readable directories among the entries of the directory at `under`. Where
    two directories come to have the same prefix, the later one's listing counts, and before all
    that of a directory around them. -/
def Dir.listingsBelow (under : String) : Dir → Table (List StorageEntry)
  | .empty => []
  | .entry name node rest =>
    rest.listingsBelow under ++ node.listings (StorageEntry.prefixBelow under name)

end

/-- The listings that stand for a tree. -/
def Dir.listings (root : Dir) : Table (List StorageEntry) := (Node.dir root).listings ""

/-- The id of the repository tree with a number. -/
def treeId (n : Nat) : String := "tree-" ++ n.repr

mutual

/-- The entry that stands for a node, the objects it needs, numbered from `next` on, and the next
    free number. A node that is no readable directory is a blob. -/
def Node.objects (name : String) :
    Node → Nat → RepoEntry × Table (List RepoEntry) × Nat
  | .dir entries, next =>
    let (level, below, free) := entries.objectsFrom (next + 1)
    (⟨.tree, name, treeId next⟩, (treeId next, level) :: below, free)
  | .denied, next => (⟨.blob, name, "blob-" ++ name⟩, [], next)
  | .file _, next => (⟨.blob, name, "blob-" ++ name⟩, [], next)

/-- The same for the entries of a directory, one after the other. -/
def Dir.objectsFrom : Dir → Nat → List RepoEntry × Table (List RepoEntry) × Nat
  | .empty, next => ([], [], next)
  | .entry name node rest, next =>
    let (entry, below, free) := node.objects name next
    let (level, more, free) := rest.objectsFrom free
    (entry :: level, below ++ more, free)

end

/-- The repository trees that stand for a tree, numbered from `next` on, its own being the first. -/
def Dir.objects (root : Dir) (next : Nat) : Table (List RepoEntry) :=
  ((Node.dir root).objects "" next).2.1

/-- The repository trees of commits, the latest first. Each commit takes the numbers after those of
    the commits before it. -/
def committedTrees : List Dir → Table (List RepoEntry)
  | [] => []
  | root :: earlier =>
    let trees := committedTrees earlier
    root.objects trees.length ++ trees

/-- Both backends as tables. -/
structure MemoryContent where
  listings : Table (List StorageEntry) := []
  texts : Table String := []
  images : Table Image := []
  /-- The trees put into the repository, the latest first. -/
  commits : List Dir := []
  repoTexts : Table String := []
  repoImages : Table Image := []
  /-- The pause before a request for a repository tree, in milliseconds. -/
  pacing : Nat := 0
  /-- How long the timer sleeps that is told to sleep for some milliseconds. -/
  timer : Nat → Nat := id

namespace MemoryContent

/-- Object storage that holds a tree. -/
def ofStorage (root : Dir) : MemoryContent := { listings := root.listings }

/-- Put a tree into the repository as its latest commit. -/
def withRepository (m : MemoryContent) (root : Dir) : MemoryContent :=
  { m with commits := root :: m.commits }

/-- The refusal of a request for something that is not in a table. -/
def missing (what key : String) : Fault := .provider ("no " ++ what ++ " at " ++ key)

/-- The value of a key, or the refusal that names it. -/
def get {α : Type} (what : String) (t : Table α) (key : String) : Except Fault α :=
  match t.lookup key with
  | some value => .ok value
  | none => .error (missing what key)

/-- The repository of the commits. What it answers does not depend on what it was asked before. -/
def repository (m : MemoryContent) : Repository where
  head := match m.commits with
    | _ :: earlier => .ok (treeId (committedTrees earlier).length)
    | [] => .error (.provider "repository has no commits")
  level _ := get "tree" (committedTrees m.commits)

/-- What the walk through the repository comes to, and the walk. Each walk ends, since no committed
    tree holds itself. -/
def walked (m : MemoryContent) : Except Fault Dir × Walk :=
  (m.repository.tree m.pacing).getD (.ok .empty, {})

/-- The answer to a request, which does not depend on earlier ones. -/
def answer (m : MemoryContent) : (r : Request) → Except Fault r.Answer
  | .listing under => get "listing" m.listings under
  | .repositoryTree _ _ => m.walked.1
  | .text (.storage key) => get "text" m.texts key
  | .text (.repository path) => get "repository file" m.repoTexts path
  | .image (.storage key) => get "blob" m.images key
  | .image (.repository path) => get "repository blob" m.repoImages path

/-- The provider that answers from the tables. -/
def provider (m : MemoryContent) : Content where
  answer _ r := m.answer r
  delay _ r := match r with
    | .repositoryTree _ _ => m.walked.2.pauses.foldl (fun slept pause => slept + m.timer pause) 0
    | _ => 0

end MemoryContent

end TreeShell
