import TreeShell.Proofs.Backend.Listing
import TreeShell.Proofs.Backend.Walk
import TreeShell.Proofs.Snapshot.Storable
import TreeShell.Proofs.Tree.Census
import TreeShell.Proofs.Tree.Edits
import TreeShell.Proofs.Tree.Ensured
import TreeShell.Tree.Graft

/-!
# Where Trees Come From

A directory that began empty and was only written to has no name twice. A tree is more than that:
its directories stand in each other, they are written over when they are full and filled when they
have long been written, and most of them were never seen by whoever wrote above them. Names are
distinct in every directory nonetheless, wherever the tree comes from. It may be read from a text
or built from what a backend lists, with any names as often as it likes, or be made of such trees by
a walk that creates directories or by a graft.

A write keeps a tree distinct if the node that it brings is (`Dir.Distinct.insert`): what it takes
the place of is gone as a whole, and everything beside it is left as it was. All else goes back to
this. A walk writes the directory that it comes from under a name of the directory around it, and so
it keeps a tree distinct if the change at its end does (`Dir.Distinct.update`). A level is planted
by writes of nodes that hold nothing yet, and the loop that grows a tree plants one level after the
other, each in a tree that was distinct before, whichever directory it reaches.

## Main definitions

* `Node.Distinct`: In every readable directory at or below a node the names are distinct.
* `Dir.Produced`: The trees that come of reading, building, walking and grafting.

## Theorems

* `Dir.Distinct.insert`, `Dir.Distinct.update`: What a write and a walk leave distinct.
* `Dir.Distinct.plant`, `Dir.Distinct.grow`: The same for a level, and for a tree that grows.
* `Dir.Produced.distinct`: Names are distinct in all trees that are produced.
* `Dir.ordered_maps`: Directories are ordered maps, and stay so at every depth.
-/

namespace TreeShell

/-- In every readable directory at or below a node the names are distinct. -/
def Node.Distinct (node : Node) : Prop := node.Everywhere fun d => d.names.Nodup

/-- A readable directory is distinct if its names and all its nodes are. -/
theorem Dir.distinct_iff {d : Dir} :
    d.Distinct ↔ d.names.Nodup ∧ ∀ e ∈ d.toList, e.2.Distinct :=
  and_congr_right fun _ => d.below_iff

theorem Dir.distinct_empty : Dir.empty.Distinct := ⟨List.nodup_nil, trivial⟩

/-- An entry of a level is planted distinct, as long as no directory comes with what it holds. -/
theorem Sprout.distinct_node {κ : Type} {sprout : Sprout κ}
    (h : ∀ name entries, sprout ≠ .leaf name (.dir entries)) : sprout.node.Distinct := by
  cases sprout with
  | branch name key => exact Dir.distinct_empty
  | leaf name node =>
      cases node with
      | dir entries => exact absurd rfl (h name entries)
      | denied => trivial
      | file readable => trivial

/-- So is a level that is answered with such entries. -/
theorem Sprout.distinct_level {κ α : Type} {sprout : α → Sprout κ}
    (h : ∀ e name entries, sprout e ≠ .leaf name (.dir entries)) {answer : Except Fault (List α)}
    {level : List (Sprout κ)} (hlevel : answer.map (List.map sprout) = .ok level) :
    ∀ planted ∈ level, planted.node.Distinct := by
  cases answer with
  | error fault => cases hlevel
  | ok entries =>
      cases hlevel
      intro planted hplanted
      obtain ⟨e, _, rfl⟩ := List.mem_map.1 hplanted
      exact distinct_node (h e)

namespace Dir.Distinct

variable {d : Dir} (h : d.Distinct)

include h

/-- A write keeps a tree distinct if the node that it brings is. -/
theorem insert {node : Node} (hnode : node.Distinct) (name : String) :
    (d.insert name node).Distinct := by
  rw [distinct_iff] at h ⊢
  refine ⟨nodup_names_insert h.1 name node, fun e he => ?_⟩
  rcases mem_toList_insert he with rfl | he
  · exact hnode
  · exact h.2 e he

/-- The directory in which a walk goes on is distinct. -/
theorem opens {name : String} {below : Dir} (hopens : d.Opens name below) : below.Distinct := by
  rcases hopens with hfind | ⟨_, rfl⟩
  · exact (distinct_iff.1 h).2 _ (mem_toList_of_find? hfind)
  · exact distinct_empty

/-- A walk keeps a tree distinct if the change at its end does, by induction on the walk. -/
theorem update {change : Dir → Dir} (hchange : ∀ d : Dir, d.Distinct → (change d).Distinct)
    (segments : List String) : (d.update change segments).1.Distinct := by
  induction segments generalizing d with
  | nil => exact hchange d h
  | cons name rest ih =>
      rcases update_cons_cases change name rest d with ⟨_, _, _, hstopped⟩ | ⟨below, hopens, hgoes⟩
      · rw [hstopped]
        exact h
      · rw [hgoes]
        exact h.insert (ih (h.opens hopens)) name

theorem ensure (segments : List String) : (d.ensure segments).1.Distinct :=
  h.update (fun _ hd => hd) segments

/-- So does a graft of a distinct tree. -/
theorem graft {repo : Dir} (hrepo : repo.Distinct) (home : Path) (name : String) :
    (d.graft repo home name).Distinct := by
  rw [Dir.graft]
  split
  · exact h.update (fun _ hd => hd.insert hrepo name) home.repositories.segments
  · exact h

/-- A level is planted one node after the other. -/
theorem plant {κ : Type} {level : List (Sprout κ)}
    (hlevel : ∀ sprout ∈ level, sprout.node.Distinct) : (d.plant level).Distinct := by
  induction level generalizing d with
  | nil => exact h
  | cons sprout level ih =>
      rw [List.forall_mem_cons] at hlevel
      exact ih (h.insert hlevel.1 sprout.name) hlevel.2

/-- What grows out of a distinct tree is distinct, whatever is asked for and whatever is answered. -/
theorem grow {κ σ : Type} {ask : κ → Asking σ (List (Sprout κ))}
    (hask : ∀ key s level, (ask key s).1 = .ok level → ∀ sprout ∈ level, sprout.node.Distinct)
    {pending : List (κ × List String)} {s last : σ} {tree : Dir}
    (hgrown : grow ask pending d s = some (.ok tree, last)) : tree.Distinct := by
  rcases exists_growsTo_of_grow hgrown with ⟨asked, hrun⟩
  refine hrun.keeps_tree (fun key s level hlevel segments tree htree => ?_) h rfl
  exact htree.update (fun _ hd => hd.plant (hask key s level hlevel)) segments

end Dir.Distinct

/-- A build from listings gives a distinct tree, whatever is listed. -/
theorem distinct_storageTree {σ : Type} {list : String → Asking σ (List StorageEntry)} {s last : σ}
    {tree : Dir} (h : storageTree list s = some (.ok tree, last)) : tree.Distinct :=
  Dir.distinct_empty.grow
    (fun under _ _ hlevel => Sprout.distinct_level (StorageEntry.sprout_ne_leaf_dir under) hlevel) h

/-- So does a walk through a repository, whatever its trees hold. -/
theorem Repository.distinct_tree {r : Repository} {pacing : Nat} {tree : Dir} {walk : Walk}
    (h : r.tree pacing = some (.ok tree, walk)) : tree.Distinct := by
  rw [Repository.tree] at h
  split at h
  · -- Without a commit there is nothing in it.
    cases h
    exact Dir.distinct_empty
  · exact Dir.distinct_empty.grow
      (fun _ _ _ hlevel => Sprout.distinct_level RepoEntry.sprout_ne_leaf_dir hlevel) h

/-- And so does a text that can be read. -/
theorem Snapshot.distinct_of_read {text : String} {tree : Dir} (h : read text = .ok tree) :
    tree.Distinct := by
  have hnamed := (Node.everywhere_iff_census _).1 (storable_of_read h).wellNamed
  exact (Node.everywhere_iff_census _).2 fun place hplace => (hnamed place hplace).1

namespace Dir

/-- The trees that come of reading a text, of either build, and of walks and grafts in trees that
    are given or come of these. -/
inductive Produced : Dir → Prop where
  | given {tree : Dir} (h : tree.Distinct) : Produced tree
  | read {text : String} {tree : Dir} (h : Snapshot.read text = .ok tree) : Produced tree
  | ensured {root : Dir} (h : Produced root) (segments : List String) :
      Produced (root.ensure segments).1
  | grafted {storage repo : Dir} (hstorage : Produced storage) (hrepo : Produced repo) (home : Path)
      (name : String) : Produced (storage.graft repo home name)
  | listed {σ : Type} {list : String → Asking σ (List StorageEntry)} {s last : σ} {tree : Dir}
      (h : storageTree list s = some (.ok tree, last)) : Produced tree
  | walked {r : Repository} {pacing : Nat} {tree : Dir} {walk : Walk}
      (h : r.tree pacing = some (.ok tree, walk)) : Produced tree

/-- Names are distinct in every directory of a tree that is produced, by cases on what produces
    it. -/
theorem Produced.distinct {tree : Dir} (h : Produced tree) : tree.Distinct := by
  induction h with
  | given h => exact h
  | read h => exact Snapshot.distinct_of_read h
  | ensured _ segments ih => exact ih.ensure segments
  | grafted _ _ home name hstorage hrepo => exact hstorage.graft hrepo home name
  | listed h => exact distinct_storageTree h
  | walked h => exact Repository.distinct_tree h

/-- Directories are ordered maps. After any edits of an empty directory its names are distinct and
    in the order of their first insertion, what is found under a name is what was written last, and
    nothing if it was never inserted, and the entries are counted by the names. And in every tree
    that is produced the names are distinct at every depth. -/
theorem ordered_maps :
    (∀ edits, (edited edits).names.Nodup ∧ (edited edits).names = (inserted edits).eraseDups ∧
      (∀ name node, (edited edits).find? name = some node ↔ LastWrite edits name node) ∧
      (∀ name, (edited edits).find? name = none ↔ name ∉ inserted edits) ∧
      (edited edits).size = (inserted edits).toFinset.card) ∧
    ∀ tree, Produced tree → tree.Distinct := by
  refine ⟨fun edits => ⟨nodup_names_edited edits, names_edited edits, ?_, ?_, size_edited edits⟩,
    fun tree h => h.distinct⟩
  · exact fun name node => find?_edited_eq_some_iff
  · intro name
    rw [find?_eq_none_iff, mem_names_edited_iff]

/-- A text, a listing and a repository in which names come twice, the repository grafted into what
    was listed. -/
theorem ordered_maps_repeated :
    let edits : List Edit := [.insert "b" .denied, .replace "c" .denied, .insert "a" (.file true),
      .insert "b" (.file false), .replace "a" (.file false)]
    let list (under : String) : Asking Unit (List StorageEntry) := fun s =>
      (.ok (if under = "" then [⟨.folder, "repositories"⟩, ⟨.object, "n"⟩, ⟨.object, "n:"⟩]
        else [⟨.object, "r"⟩]), s)
    let r : Repository := ⟨.ok "0", fun _ _ => .ok [⟨.blob, "x", "1"⟩, ⟨.blob, "x", "2"⟩]⟩
    let walked : Dir := .ofList [("x", .file true)]
    let listed : Dir := .ofList [("repositories", .dir (.ofList [("r", .file true)])),
      ("n", .file false)]
    let tree := ((listed.graft walked .root "r").ensure ["home", "u"]).1
    (edited edits).names = ["b", "a"] ∧ (edited edits).find? "a" = some (.file false) ∧
      storageTree list () = some (.ok listed, ()) ∧
      r.tree 0 = some (.ok walked, ⟨[.fetch "0"]⟩) ∧ Produced tree ∧ tree.Distinct ∧
      tree = .ofList [("repositories", .dir (.ofList [("r", .dir walked)])), ("n", .file false),
        ("home", .dir (.ofList [("u", .dir .empty)]))] := by
  intro edits list r walked listed tree
  have hlisted : storageTree list () = some (.ok listed, ()) :=
    (growsTo_of_growFor (n := 2) rfl).grow_eq
  have hwalked : r.tree 0 = some (.ok walked, ⟨[.fetch "0"]⟩) :=
    (growsTo_of_growFor (n := 1) rfl).grow_eq
  have htree : Produced tree :=
    .ensured (.grafted (.listed hlisted) (.walked hwalked) .root "r") ["home", "u"]
  obtain ⟨_, hnames, hfind, _⟩ := ordered_maps.1 edits
  have hlast : LastWrite edits "a" (.file false) :=
    ⟨edits.dropLast, .replace "a" (.file false), [], rfl, .inr ⟨rfl, by decide⟩,
      List.forall_mem_nil _⟩
  exact ⟨hnames.trans (by decide), (hfind _ _).2 hlast, hlisted, hwalked, htree,
    ordered_maps.2 tree htree, by decide⟩

end Dir

end TreeShell
