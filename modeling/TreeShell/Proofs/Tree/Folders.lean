import Mathlib.Data.List.Nodup
import TreeShell.Proofs.Tree.Everywhere
import TreeShell.Tree.Lookup

/-!
# The Directories of a Tree

A build asks once for each readable directory, so to say what it asks for is to count directories.
`Dir.folders` lists the paths of all readable directories of a tree, the later entry of a directory
before the earlier one, because that is the order in which a build comes to them. Where the names
of each directory are distinct, the list has every readable directory exactly once; else two
entries of one name would stand for two directories, of which only the first can be found.

## Main definitions

* `Dir.Distinct`: In every readable directory the names are distinct.
* `Dir.folders`: The paths of the readable directories.

## Theorems

* `Dir.find?_eq_some_iff`: With distinct names, what is found under a name is its entry.
* `Dir.mem_foldersBelow_iff`, `Dir.cons_mem_folders_iff`: The list, said of the entries.
* `Dir.mem_folders_iff`, `Dir.nodup_folders`: It has every readable directory, and none twice.
-/

namespace TreeShell

/-- In every readable directory of a tree the names are distinct. -/
def Dir.Distinct (root : Dir) : Prop := root.Everywhere fun d => d.names.Nodup

mutual

/-- The paths from a node to the readable directories at or below it. -/
def Node.folders : Node → List (List String)
  | .dir entries => [] :: entries.foldersBelow
  | .denied => []
  | .file _ => []

/-- The same for the directories below a directory, those of a later entry first. -/
def Dir.foldersBelow : Dir → List (List String)
  | .empty => []
  | .entry name node rest => rest.foldersBelow ++ node.folders.map (name :: ·)

end

namespace Dir

/-- The paths of the readable directories of a tree, the root included. -/
def folders (root : Dir) : List (List String) := (Node.dir root).folders

/-- With distinct names, what is found under a name is its entry. -/
theorem find?_eq_some_iff {d : Dir} (h : d.names.Nodup) {name : String} {node : Node} :
    d.find? name = some node ↔ (name, node) ∈ d.toList := by
  induction d using Dir.rec (motive_1 := fun _ => True) with
  | empty => simp only [find?, toList_empty, List.not_mem_nil, reduceCtorEq]
  | entry n old rest _ ih =>
      have hcons : (n :: rest.names).Nodup := h
      rw [List.nodup_cons] at hcons
      rw [find?, toList_entry, List.mem_cons, Prod.mk.injEq]
      by_cases hn : n = name
      · -- No later entry has the name that this one has.
        have hlater : (name, node) ∉ rest.toList := fun hm =>
          hcons.1 (hn ▸ List.mem_map_of_mem hm)
        rw [if_pos hn, Option.some.injEq]
        exact ⟨fun he => .inl ⟨hn.symm, he.symm⟩, fun hm => (hm.resolve_right hlater).2.symm⟩
      · rw [if_neg hn, ih hcons.2]
        exact ⟨.inr, fun hm => hm.resolve_left fun he => hn he.1.symm⟩
  | _ => trivial

/-- A path to a directory below begins with the name of an entry. -/
theorem mem_foldersBelow_iff {d : Dir} {segments : List String} :
    segments ∈ d.foldersBelow ↔ ∃ e ∈ d.toList, ∃ rest ∈ e.2.folders, segments = e.1 :: rest := by
  induction d using Dir.rec (motive_1 := fun _ => True) with
  | empty => simp only [foldersBelow, toList_empty, List.not_mem_nil, false_and, exists_false]
  | entry name node rest _ ih =>
      rw [foldersBelow, List.mem_append, ih, toList_entry, List.mem_map]
      constructor
      · rintro (⟨e, he, hfolder⟩ | ⟨inner, hinner, rfl⟩)
        · exact ⟨e, List.mem_cons_of_mem _ he, hfolder⟩
        · exact ⟨(name, node), List.mem_cons_self, inner, hinner, rfl⟩
      · rintro ⟨e, he, inner, hinner, rfl⟩
        rcases List.mem_cons.1 he with rfl | he
        · exact .inr ⟨inner, hinner, rfl⟩
        · exact .inl ⟨e, he, inner, hinner, rfl⟩
  | _ => trivial

/-- A path that goes on begins with a readable directory, and goes on in it. -/
theorem cons_mem_folders_iff {root : Dir} {name : String} {rest : List String} :
    name :: rest ∈ root.folders ↔
      ∃ child, (name, .dir child) ∈ root.toList ∧ rest ∈ child.folders := by
  have hmem : name :: rest ∈ root.folders ↔ name :: rest ∈ root.foldersBelow := by
    rw [folders, Node.folders, List.mem_cons]
    exact ⟨fun hm => hm.resolve_left (List.cons_ne_nil _ _), .inr⟩
  rw [hmem, mem_foldersBelow_iff]
  constructor
  · rintro ⟨⟨_, node⟩, he, inner, hinner, hpath⟩
    rw [List.cons.injEq] at hpath
    rcases hpath with ⟨rfl, rfl⟩
    -- Only a readable directory has a path to a directory at or below it.
    cases node with
    | dir child => exact ⟨child, he, hinner⟩
    | denied => cases hinner
    | file => cases hinner
  · rintro ⟨child, he, hrest⟩
    exact ⟨_, he, rest, hrest, rfl⟩

/-- The list has the path of every readable directory, and no other. -/
theorem mem_folders_iff {root : Dir} (h : root.Distinct) {segments : List String} :
    segments ∈ root.folders ↔ ∃ entries, root.dirAt? segments = some entries := by
  induction segments generalizing root with
  | nil => exact ⟨fun _ => ⟨root, dirAt?_nil root⟩, fun _ => List.mem_cons_self⟩
  | cons name rest ih =>
      have hbelow : ∀ e ∈ root.toList, e.2.Everywhere fun d => d.names.Nodup :=
        (below_iff root).1 h.2
      rw [cons_mem_folders_iff]
      constructor
      · rintro ⟨child, he, hrest⟩
        rcases (ih (hbelow _ he)).1 hrest with ⟨entries, hentries⟩
        exact ⟨entries, dirAt?_cons_eq_some_iff.2 ⟨child, (find?_eq_some_iff h.1).2 he, hentries⟩⟩
      · rintro ⟨entries, hentries⟩
        rcases dirAt?_cons_eq_some_iff.1 hentries with ⟨child, hfind, hchild⟩
        have he := (find?_eq_some_iff h.1).1 hfind
        exact ⟨child, he, (ih (hbelow _ he)).2 ⟨entries, hchild⟩⟩

end Dir

mutual

theorem Node.nodup_folders : (node : Node) → (node.Everywhere fun d => d.names.Nodup) →
    node.folders.Nodup
  | .dir entries, h => by
      rw [Node.folders, List.nodup_cons]
      refine ⟨fun hm => ?_, entries.nodup_foldersBelow h.1 h.2⟩
      rcases Dir.mem_foldersBelow_iff.1 hm with ⟨_, _, _, _, hpath⟩
      cases hpath
  | .denied, _ => List.nodup_nil
  | .file _, _ => List.nodup_nil

theorem Dir.nodup_foldersBelow : (d : Dir) → d.names.Nodup → (d.Below fun d => d.names.Nodup) →
    d.foldersBelow.Nodup
  | .empty, _, _ => List.nodup_nil
  | .entry name node rest, hnames, h => by
      have hcons : (name :: rest.names).Nodup := hnames
      rw [List.nodup_cons] at hcons
      have hhere : (node.folders.map (name :: ·)).Nodup :=
        (node.nodup_folders h.1).map fun _ _ he => (List.cons.inj he).2
      rw [Dir.foldersBelow, List.nodup_append]
      refine ⟨rest.nodup_foldersBelow hcons.2 h.2, hhere, ?_⟩
      -- The paths of a later entry begin with another name.
      rintro _ hlater _ hmem rfl
      rcases Dir.mem_foldersBelow_iff.1 hlater with ⟨e, he, inner, _, rfl⟩
      rcases List.mem_map.1 hmem with ⟨_, _, hpath⟩
      rw [List.cons.injEq] at hpath
      exact hcons.1 (hpath.1 ▸ List.mem_map_of_mem he)

end

/-- And it has none of them twice. -/
theorem Dir.nodup_folders {root : Dir} (h : root.Distinct) : root.folders.Nodup :=
  Node.nodup_folders _ h

end TreeShell
