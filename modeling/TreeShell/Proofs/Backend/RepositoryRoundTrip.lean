import Mathlib
import TreeShell.Proofs.Backend.Table
import TreeShell.Proofs.Backend.Walk
import TreeShell.Proofs.Tree.Ranked

/-!
# A Tree in the Repository

A repository names its trees by ids, and a tree that is put into it is cut into one level for each
readable directory, numbered in the order in which the directories are entered. The numbers go on
from one tree to the next. So the ids are those of the numbers below the size of the table, however
many trees were put there before, and no level ever covers another one.

What comes back is not quite what was put in. A repository knows no access, and a directory that
cannot be read has no level: everything but a readable directory is committed as a file that can be
read (`Dir.committed`). Names are kept as they are, whatever characters they hold, since no id is
made of a name.

A directory is numbered before those below it, so the numbers rise on the way down and the walk ends
(`MemoryContent.tree_repository`). It takes the later of two directories first and the numbers go the
other way, so the ids it asks for are the ids of the tree's levels in another order. How many there
are is all the pauses depend on.

## Main definitions

* `Node.committed`, `Dir.committed`: What a repository makes of a tree.
* `Numbered`: The ids in a table are those of the numbers below its size.
* `Dir.levels`: What a repository answers after a tree was put there.

## Theorems

* `Node.objects_numbered`: A tree takes the next numbers, one for each readable directory.
* `numbered_committedTrees`, `committedTrees_rising`: The ids are numbered after any commits, and the
  numbers rise from a level to those below it.
* `Node.objects_perm`: The levels hold the names of the readable directories.
* `Dir.unfolds_objects`: The recursive meaning of the levels is the committed tree.
* `MemoryContent.tree_repository`: The walk ends.
* `MemoryContent.walked_of_commits`: It comes to the tree of the latest commit.
* `MemoryContent.repositoryTree_committed`: So does the provider, after any earlier commits, and it
  pauses between any two directories.
-/

namespace TreeShell

/-- Different numbers make different ids. -/
theorem treeId_injective : Function.Injective treeId := fun _ _ h =>
  Nat.repr_injective ((String.append_right_inj _).1 h)

mutual

/-- What a repository makes of a node: without access marks, and with a file for each directory that
    it cannot read. -/
def Node.committed : Node → Node
  | .dir entries => .dir entries.committed
  | .denied => .file true
  | .file _ => .file true

/-- The same for the entries of a directory, which keep their names and their order. -/
def Dir.committed : Dir → Dir
  | .empty => .empty
  | .entry name node rest => .entry name node.committed rest.committed

end

/-! ## The table -/

theorem Node.objects_dir (name : String) (entries : Dir) (next : Nat) :
    (Node.dir entries).objects name next =
      (⟨.tree, name, treeId next⟩,
        (treeId next, (entries.objectsFrom (next + 1)).1) :: (entries.objectsFrom (next + 1)).2.1,
        (entries.objectsFrom (next + 1)).2.2) := rfl

theorem Dir.objectsFrom_entry (name : String) (node : Node) (rest : Dir) (next : Nat) :
    (Dir.entry name node rest).objectsFrom next =
      ((node.objects name next).1 :: (rest.objectsFrom (node.objects name next).2.2).1,
        (node.objects name next).2.1 ++ (rest.objectsFrom (node.objects name next).2.2).2.1,
        (rest.objectsFrom (node.objects name next).2.2).2.2) := rfl

theorem Node.name_objects (name : String) (node : Node) (next : Nat) :
    (node.objects name next).1.name = name := by
  cases node with
  | dir entries => rw [objects_dir]
  | denied => rfl
  | file => rfl

/-- A level has the names of its directory, in their order. -/
theorem Dir.names_objectsFrom (d : Dir) (next : Nat) :
    (d.objectsFrom next).1.map RepoEntry.name = d.names := by
  cases d with
  | empty => rfl
  | entry name node rest =>
      rw [objectsFrom_entry, List.map_cons, node.name_objects, rest.names_objectsFrom]
      rfl

mutual

/-- The levels of a node take the next numbers, one for each readable directory. -/
theorem Node.objects_numbered (name : String) : (node : Node) → (next : Nat) →
    (node.objects name next).2.1.map Prod.fst =
        (List.range' next node.census.length).map treeId ∧
      (node.objects name next).2.2 = next + node.census.length
  | .dir entries, next => by
      have hbelow := entries.objectsFrom_numbered (next + 1)
      rw [Node.objects_dir, Node.census, List.length_cons, List.map_cons, hbelow.1, hbelow.2,
        List.range'_succ, List.map_cons]
      exact ⟨rfl, by omega⟩
  | .denied, _ => ⟨rfl, rfl⟩
  | .file _, _ => ⟨rfl, rfl⟩

theorem Dir.objectsFrom_numbered : (d : Dir) → (next : Nat) →
    (d.objectsFrom next).2.1.map Prod.fst =
        (List.range' next d.censusBelow.length).map treeId ∧
      (d.objectsFrom next).2.2 = next + d.censusBelow.length
  | .empty, _ => ⟨rfl, rfl⟩
  | .entry name node rest, next => by
      have hnode := node.objects_numbered name next
      -- The later entries go on where this one ends.
      have hrest := rest.objectsFrom_numbered (next + node.census.length)
      rw [Dir.objectsFrom_entry, Dir.censusBelow, List.length_append, List.length_map, hnode.2,
        List.map_append, hnode.1, hrest.1, hrest.2, ← List.map_append, List.range'_append_1,
        Nat.add_comm rest.censusBelow.length]
      exact ⟨rfl, by omega⟩

end

mutual

/-- The levels of a node hold the names of its readable directories. -/
theorem Node.objects_perm (name : String) : (node : Node) → (next : Nat) →
    ((node.objects name next).2.1.map fun e => e.2.map RepoEntry.name).Perm
      (node.census.map fun place => place.2.names)
  | .dir entries, next => by
      rw [Node.objects_dir, Node.census, List.map_cons, List.map_cons, entries.names_objectsFrom]
      exact (entries.objectsFrom_perm (next + 1)).cons _
  | .denied, _ => .nil
  | .file _, _ => .nil

theorem Dir.objectsFrom_perm : (d : Dir) → (next : Nat) →
    ((d.objectsFrom next).2.1.map fun e => e.2.map RepoEntry.name).Perm
      (d.censusBelow.map fun place => place.2.names)
  | .empty, _ => .nil
  | .entry name node rest, next => by
      rw [Dir.objectsFrom_entry, Dir.censusBelow, List.map_append, List.map_append, List.map_map]
      -- The table has the levels of the first entry first, and the census those of the later ones.
      exact ((node.objects_perm name next).append (rest.objectsFrom_perm _)).trans
        List.perm_append_comm

end

/-- The recursive meaning of the levels of a directory is the committed directory, and each of the
    levels below is asked for once. -/
theorem Dir.unfolds_objects {level : String → Except Fault (List RepoEntry)} :
    (d : Dir) → (next : Nat) → (∀ e ∈ (d.objectsFrom next).2.1, level e.1 = .ok e.2) →
    ∃ asked, asked.Perm ((d.objectsFrom next).2.1.map Prod.fst) ∧
      Unfolds (levelOf level fun _ => RepoEntry.sprout)
        ((d.objectsFrom next).1.map RepoEntry.sprout) asked (.ok d.committed)
  | .empty, _, _ => ⟨[], .nil, .nil⟩
  | .entry name .denied rest, next, hlevel => by
      rcases rest.unfolds_objects next hlevel with ⟨asked, hasked, hrest⟩
      exact ⟨asked, hasked, .leaf hrest (.file true)⟩
  | .entry name (.file _) rest, next, hlevel => by
      rcases rest.unfolds_objects next hlevel with ⟨asked, hasked, hrest⟩
      exact ⟨asked, hasked, .leaf hrest (.file true)⟩
  | .entry name (.dir entries) rest, next, hlevel => by
      rw [objectsFrom_entry, Node.objects_dir] at hlevel ⊢
      rw [List.forall_mem_append] at hlevel
      rcases rest.unfolds_objects _ hlevel.2 with ⟨later, hlater, hrest⟩
      rcases entries.unfolds_objects (next + 1)
        (fun e he => hlevel.1 e (List.mem_cons_of_mem _ he)) with ⟨inner, hinner, hinside⟩
      have hown : levelOf level (fun _ => RepoEntry.sprout) (treeId next) =
          .ok ((entries.objectsFrom (next + 1)).1.map RepoEntry.sprout) :=
        levelOf_eq_ok_iff.2 ⟨_, hlevel.1 _ List.mem_cons_self, rfl⟩
      refine ⟨later ++ treeId next :: inner, ?_, .branch hrest hown hinside⟩
      rw [List.map_append, List.map_cons]
      exact (hlater.append (hinner.cons _)).trans List.perm_append_comm

/-- The ids in a table of trees are those of the numbers below its size. -/
def Numbered (trees : Table (List RepoEntry)) : Prop :=
  (trees.map Prod.fst).Perm ((List.range trees.length).map treeId)

theorem Numbered.nodup {trees : Table (List RepoEntry)} (h : Numbered trees) :
    (trees.map Prod.fst).Nodup :=
  h.nodup_iff.2 (List.nodup_range.map treeId_injective)

theorem Dir.length_objects (root : Dir) (next : Nat) :
    (root.objects next).length = root.census.length := by
  have hperm := ((Node.dir root).objects_perm "" next).length_eq
  rwa [List.length_map, List.length_map] at hperm

/-- A further tree takes the numbers from the size of the table on. -/
theorem Numbered.append_objects {trees : Table (List RepoEntry)} (h : Numbered trees) (root : Dir) :
    Numbered (root.objects trees.length ++ trees) := by
  have hnew : (root.objects trees.length).map Prod.fst =
      (List.range' trees.length root.census.length).map treeId :=
    ((Node.dir root).objects_numbered "" trees.length).1
  rw [Numbered, List.map_append, List.length_append, hnew, root.length_objects, Nat.add_comm,
    List.range_eq_range', ← List.range'_append_1, List.map_append, Nat.zero_add,
    ← List.range_eq_range']
  exact List.perm_append_comm.trans (h.append_right _)

/-- What a repository answers about an id after a tree was put to the trees there. -/
def Dir.levels (root : Dir) (trees : Table (List RepoEntry)) (id : String) :
    Except Fault (List RepoEntry) :=
  MemoryContent.get "tree" (root.objects trees.length ++ trees) id

section Levels

variable {trees : Table (List RepoEntry)} (h : Numbered trees) (root : Dir)

include h

/-- Each level of the tree is found under its id. -/
theorem Numbered.levels_eq_ok {e : String × List RepoEntry} (he : e ∈ root.objects trees.length) :
    root.levels trees e.1 = .ok e.2 :=
  MemoryContent.get_eq_ok_iff.2
    ((Table.lookup_eq_some_iff (h.append_objects root).nodup).2 (List.mem_append_left _ he))

/-- The recursive meaning of the repository is the committed tree. -/
theorem Numbered.unfoldsFrom :
    ∃ asked, asked.Perm ((root.objects trees.length).map Prod.fst) ∧
      UnfoldsFrom (levelOf (root.levels trees) fun _ => RepoEntry.sprout) (treeId trees.length)
        asked (.ok root.committed) := by
  rcases root.unfolds_objects (trees.length + 1)
    (fun e he => h.levels_eq_ok root (List.mem_cons_of_mem _ he)) with ⟨inner, hinner, hinside⟩
  have hown := h.levels_eq_ok root List.mem_cons_self
  exact ⟨_, hinner.cons _, .listed (levelOf_eq_ok_iff.2 ⟨_, hown, rfl⟩) hinside⟩

/-- The names in each level of the tree are distinct. -/
theorem Numbered.nodup_level (hdistinct : root.Everywhere fun d => d.names.Nodup) {id : String}
    (hid : id ∈ (root.objects trees.length).map Prod.fst) {sprouts : List (Sprout String)}
    (hlevel : levelOf (root.levels trees) (fun _ => RepoEntry.sprout) id = .ok sprouts) :
    (sprouts.map Sprout.name).Nodup := by
  rcases List.mem_map.1 hid with ⟨e, he, rfl⟩
  rcases levelOf_eq_ok_iff.1 hlevel with ⟨entries, hentries, rfl⟩
  obtain rfl : e.2 = entries := Except.ok.inj ((h.levels_eq_ok root he).symm.trans hentries)
  have hnames : e.2.map RepoEntry.name ∈
      (Node.dir root).census.map fun place => place.2.names :=
    ((Node.dir root).objects_perm "" trees.length).mem_iff.1 (List.mem_map_of_mem he)
  rcases List.mem_map.1 hnames with ⟨place, hplace, hplaceNames⟩
  have hsame : (e.2.map RepoEntry.sprout).map Sprout.name = e.2.map RepoEntry.name := by
    rw [List.map_map]
    exact List.map_congr_left fun entry _ => entry.name_sprout
  rw [hsame, ← hplaceNames]
  exact (Node.everywhere_iff_census _).1 hdistinct place hplace

end Levels

/-! ## The pauses -/

namespace Walk

/-- Between any two fetches there is one pause, or none if it has no length. -/
theorem pauses_paced (pacing : Nat) (ids : List String) :
    (mk (paced pacing ids)).pauses =
      List.replicate (if pacing = 0 then 0 else ids.length - 1) pacing := by
  cases ids with
  | nil => rw [List.length_nil, Nat.zero_sub, ite_self]; rfl
  | cons first later =>
      -- The first fetch goes without a pause, so only the later ones count.
      have hlater : (later.flatMap (nextFetch pacing)).filterMap WalkStep.pause? =
          List.replicate (if pacing = 0 then 0 else later.length) pacing := by
        induction later with
        | nil => rw [List.length_nil, ite_self]; rfl
        | cons id later ih =>
            rw [List.flatMap_cons, List.filterMap_append, ih]
            by_cases hpacing : pacing = 0
            · simp [nextFetch, hpacing, WalkStep.pause?]
            · simp [nextFetch, hpacing, WalkStep.pause?, List.replicate_succ]
      exact hlater

theorem sum_pauses_paced (pacing : Nat) (ids : List String) :
    (mk (paced pacing ids)).pauses.sum = pacing * (ids.length - 1) := by
  rw [pauses_paced, List.sum_replicate, smul_eq_mul]
  by_cases hpacing : pacing = 0
  · rw [hpacing, Nat.mul_zero, Nat.zero_mul]
  · rw [if_neg hpacing, Nat.mul_comm]

end Walk

/-! ## The commits -/

/-- The ids are numbered after any commits. -/
theorem numbered_committedTrees (commits : List Dir) : Numbered (committedTrees commits) := by
  induction commits with
  | nil => exact .nil
  | cons root earlier ih => exact ih.append_objects root

mutual

/-- The trees in a level have higher numbers than the level, and none has a number that is free. -/
theorem Node.objects_rising (name : String) : (node : Node) → (next : Nat) →
    ((node.objects name next).1.kind = .tree →
      (node.objects name next).1.id = treeId next ∧ next < (node.objects name next).2.2) ∧
    ∀ e ∈ (node.objects name next).2.1, ∃ n, e.1 = treeId n ∧ ∀ entry ∈ e.2, entry.kind = .tree →
      ∃ k, entry.id = treeId k ∧ n < k ∧ k < (node.objects name next).2.2
  | .dir entries, next => by
      have hbelow := entries.objectsFrom_rising (next + 1)
      have hfree := (entries.objectsFrom_numbered (next + 1)).2
      rw [Node.objects_dir]
      refine ⟨fun _ => ⟨rfl, by dsimp only; omega⟩, List.forall_mem_cons.2 ⟨?_, hbelow.2⟩⟩
      refine ⟨next, rfl, fun entry hentry hkind => ?_⟩
      rcases hbelow.1 entry hentry hkind with ⟨k, hid, hlow, hhigh⟩
      exact ⟨k, hid, hlow, hhigh⟩
  | .denied, _ => ⟨fun hkind => (by cases hkind), fun e he => (by cases he)⟩
  | .file _, _ => ⟨fun hkind => (by cases hkind), fun e he => (by cases he)⟩

theorem Dir.objectsFrom_rising : (d : Dir) → (next : Nat) →
    (∀ entry ∈ (d.objectsFrom next).1, entry.kind = .tree →
      ∃ k, entry.id = treeId k ∧ next ≤ k ∧ k < (d.objectsFrom next).2.2) ∧
    ∀ e ∈ (d.objectsFrom next).2.1, ∃ n, e.1 = treeId n ∧ ∀ entry ∈ e.2, entry.kind = .tree →
      ∃ k, entry.id = treeId k ∧ n < k ∧ k < (d.objectsFrom next).2.2
  | .empty, _ => ⟨fun entry hentry => (by cases hentry), fun e he => (by cases he)⟩
  | .entry name node rest, next => by
      have hnode := node.objects_rising name next
      have hrest := rest.objectsFrom_rising (node.objects name next).2.2
      have hlow := (node.objects_numbered name next).2
      have hhigh := (rest.objectsFrom_numbered (node.objects name next).2.2).2
      rw [Dir.objectsFrom_entry]
      dsimp only
      constructor
      · refine List.forall_mem_cons.2 ⟨fun hkind => ?_, fun entry hentry hkind => ?_⟩
        · rcases hnode.1 hkind with ⟨hid, hfree⟩
          exact ⟨next, hid, Nat.le_refl _, by omega⟩
        · rcases hrest.1 entry hentry hkind with ⟨k, hid, hk, hfree⟩
          exact ⟨k, hid, by omega, hfree⟩
      · refine List.forall_mem_append.2 ⟨fun e he => ?_, hrest.2⟩
        rcases hnode.2 e he with ⟨n, hn, hentries⟩
        refine ⟨n, hn, fun entry hentry hkind => ?_⟩
        rcases hentries entry hentry hkind with ⟨k, hid, hk, hfree⟩
        exact ⟨k, hid, hk, by omega⟩

end

/-- So do those of all commits. -/
theorem committedTrees_rising (commits : List Dir) : ∀ e ∈ committedTrees commits, ∃ n,
    e.1 = treeId n ∧ ∀ entry ∈ e.2, entry.kind = .tree →
      ∃ k, entry.id = treeId k ∧ n < k ∧ k < (committedTrees commits).length := by
  induction commits with
  | nil => exact fun e he => by cases he
  | cons root earlier ih =>
      have hfree := ((Node.dir root).objects_numbered "" (committedTrees earlier).length).2
      have hlength : (committedTrees (root :: earlier)).length =
          (committedTrees earlier).length + root.census.length := by
        rw [committedTrees, List.length_append, root.length_objects, Nat.add_comm]
      refine List.forall_mem_append.2 ⟨fun e he => ?_, fun e he => ?_⟩
      · rcases ((Node.dir root).objects_rising "" _).2 e he with ⟨n, hn, hentries⟩
        refine ⟨n, hn, fun entry hentry hkind => ?_⟩
        rcases hentries entry hentry hkind with ⟨k, hid, hk, hlow⟩
        exact ⟨k, hid, hk, by rw [hlength]; exact hfree ▸ hlow⟩
      · rcases ih e he with ⟨n, hn, hentries⟩
        refine ⟨n, hn, fun entry hentry hkind => ?_⟩
        rcases hentries entry hentry hkind with ⟨k, hid, hk, hlow⟩
        exact ⟨k, hid, hk, by omega⟩

namespace MemoryContent

variable (m : MemoryContent)

/-- No chain of trees in the repository goes on for ever, since their numbers rise. -/
theorem acc_repository (id : String) :
    Acc (fun id above => ChildBy m.repository.Gives above id) id := by
  have hchild {above id : String} (h : ChildBy m.repository.Gives above id) :
      ∃ n k, above = treeId n ∧ id = treeId k ∧ n < k ∧ k < (committedTrees m.commits).length := by
    rcases h with ⟨below, ⟨past, hbelow⟩, name, hfound⟩
    rcases levelOf_eq_ok_iff.1 hbelow with ⟨entries, hentries, rfl⟩
    rcases List.lookup_eq_some_iff.1 (get_eq_ok_iff.1 hentries) with ⟨before, later, hsplit, _⟩
    have hmem : (above, entries) ∈ committedTrees m.commits := by
      rw [hsplit]
      exact List.mem_append_right _ List.mem_cons_self
    rcases committedTrees_rising m.commits _ hmem with ⟨n, hn, hrising⟩
    rcases List.mem_map.1 hfound with ⟨entry, hentry, hsprout⟩
    rcases RepoEntry.eq_of_sprout_eq_branch hsprout with ⟨hkind, rfl⟩
    rcases hrising entry hentry hkind with ⟨k, hid, hk, hlow⟩
    exact ⟨n, k, hn, hid, hk, hlow⟩
  have hnumber (left : Nat) : ∀ n, (committedTrees m.commits).length - n = left →
      Acc (fun id above => ChildBy m.repository.Gives above id) (treeId n) := by
    induction left using Nat.strongRecOn with
    | ind left ih =>
        intro n hleft
        refine .intro _ fun id hid => ?_
        rcases hchild hid with ⟨n', k, hn, rfl, hk, hlow⟩
        cases treeId_injective hn
        exact ih _ (by omega) k rfl
  refine .intro id fun child hid => ?_
  rcases hchild hid with ⟨_, k, _, rfl, _, _⟩
  exact hnumber _ k rfl

/-- The walk through a repository held in memory ends, whatever was put there. -/
theorem tree_repository : m.repository.tree m.pacing = some m.walked := by
  have hends : ∃ walked, m.repository.tree m.pacing = some walked := by
    unfold Repository.tree
    split
    · exact ⟨_, rfl⟩
    · have hgives : ∀ id walk below, (m.repository.ask m.pacing id walk).1 = .ok below →
          m.repository.Gives id below := fun id walk below hbelow => ⟨walk.fetched, hbelow⟩
      rcases Ends.nil.cons_of_acc hgives (m.acc_repository _) [] .empty {} with
        ⟨asked, result, last, hrun⟩
      exact ⟨_, hrun.grow_eq⟩
  rcases hends with ⟨walked, hwalked⟩
  rw [MemoryContent.walked, hwalked, Option.getD_some]

/-- The walk comes to the tree of the latest commit, and has fetched each of its levels once. -/
theorem walked_of_commits {root : Dir} {earlier : List Dir} (hcommits : m.commits = root :: earlier)
    (hdistinct : root.Everywhere fun d => d.names.Nodup) :
    ∃ ids, ids.Perm ((root.objects (committedTrees earlier).length).map Prod.fst) ∧
      m.walked = (.ok root.committed, ⟨paced m.pacing ids⟩) := by
  have hnumbered := numbered_committedTrees earlier
  rcases hnumbered.unfoldsFrom root with ⟨ids, hids, hunfolds⟩
  have hlevel : ∀ past id,
      m.repository.level past id = root.levels (committedTrees earlier) id := by
    intro past id
    rw [repository, hcommits]
    rfl
  have hanswered := Repository.says_told hlevel [] ids
  refine ⟨ids, hids, ?_⟩
  have hwalk := grow_unfoldsFrom hunfolds (fun id below hmem => ?_)
    (Repository.answers_paced m.pacing hanswered)
  · rw [map_fst_told] at hwalk
    have htree : m.repository.tree m.pacing =
        some (.ok root.committed, ⟨paced m.pacing ids⟩) := by
      have hhead : m.repository.head = .ok (treeId (committedTrees earlier).length) := by
        rw [repository, hcommits]
      rw [Repository.tree, hhead]
      exact hwalk
    exact Option.some.inj (m.tree_repository.symm.trans htree)
  · exact hnumbered.nodup_level root hdistinct (hids.mem_iff.1 (mem_told.1 hmem).1)
      (gives_of_told hmem)

/-- Trees that are put into the repository come to lie before those already there. -/
theorem commits_foldl (roots : List Dir) :
    (roots.foldl withRepository m).commits = roots.reverse ++ m.commits := by
  induction roots generalizing m with
  | nil => rfl
  | cons root later ih =>
      rw [List.foldl_cons, ih, List.reverse_cons, List.append_assoc]
      rfl

/-- Whatever was put into a fresh repository before, a tree comes back as it was committed, and the
    pauses between its directories were to last, together, the pacing as often as there are
    directories below the root. -/
theorem repositoryTree_committed {m : MemoryContent} (hfresh : m.commits = []) (earlier : List Dir)
    {root : Dir} (hdistinct : root.Everywhere fun d => d.names.Nodup) (pacing : Nat)
    (user repo : String) (past : List Request) :
    let filled := { (earlier ++ [root]).foldl withRepository m with pacing := pacing }
    filled.provider.answer past (.repositoryTree user repo) = .ok root.committed ∧
    filled.repository.tree pacing = some filled.walked ∧
    ∃ places : List (List String), places.Nodup ∧
      (∀ segments, segments ∈ places ↔ ∃ entries, root.dirAt? segments = some entries) ∧
      filled.walked.2.pauses.sum = pacing * (places.length - 1) := by
  intro filled
  have hcommits : filled.commits = root :: earlier.reverse := by
    have hall := commits_foldl m (earlier ++ [root])
    rwa [hfresh, List.append_nil, List.reverse_append] at hall
  rcases filled.walked_of_commits hcommits hdistinct with ⟨ids, hids, hwalked⟩
  have hlength : ids.length = root.folders.length := by
    rw [hids.length_eq, List.length_map, root.length_objects, Dir.folders, Node.folders_eq,
      List.length_map]
    rfl
  have hanswer : filled.provider.answer past (.repositoryTree user repo) = filled.walked.1 := rfl
  refine ⟨?_, filled.tree_repository, root.folders, Dir.nodup_folders hdistinct,
    fun _ => Dir.mem_folders_iff hdistinct, ?_⟩
  · exact hanswer.trans (congrArg Prod.fst hwalked)
  · rw [hwalked, ← hlength]
    exact Walk.sum_pauses_paced pacing ids

/-- The second of two commits of one tree, which has names that are no names elsewhere, a denied
    directory and a file that cannot be read. -/
theorem repositoryTree_committed_twice :
    let root : Dir := .ofList
      [("a:/", .dir (.ofList [("", .denied), (":", .dir .empty)])), ("b", .file false)]
    let filled : MemoryContent := { [root, root].foldl withRepository {} with pacing := 500 }
    ({} : MemoryContent).commits = [] ∧ (root.Everywhere fun d => d.names.Nodup) ∧
      filled.provider.answer [] (.repositoryTree "user" "repo") = .ok (.ofList
        [("a:/", .dir (.ofList [("", .file true), (":", .dir .empty)])), ("b", .file true)]) ∧
      filled.repository.tree 500 = some filled.walked ∧
      ∃ places : List (List String), places.Nodup ∧
        (∀ segments, segments ∈ places ↔ ∃ entries, root.dirAt? segments = some entries) ∧
        filled.walked.2.pauses.sum = 500 * (places.length - 1) := by
  intro root filled
  have hdistinct : root.Everywhere fun d => d.names.Nodup := by decide
  exact ⟨rfl, hdistinct, repositoryTree_committed rfl [root] hdistinct 500 "user" "repo" []⟩

end MemoryContent

end TreeShell
