import Mathlib.Data.Finset.Card
import Mathlib.Data.List.Induction
import TreeShell.Proofs.Tree.Everywhere

/-!
# A Directory and What Was Written to It

A directory keeps its entries in a list, and nothing about the list itself prevents a name from
standing in it twice. It is a map all the same, because it is only written to in two ways: an
insertion adds a name where there was none, and everything else changes the node of a name that is
there. So whatever was written to a directory that began empty, its names are those that were
inserted, each at the place of its first insertion, and under each of them stands what was written
last.

What was written last is said of the edits and not of the directory. A replacement counts only if
its name was inserted before, and after that every edit with this name counts. This is what
`LastWrite` says, and the proofs go along the edits from the first to the last: one more edit is the
last write of its own name, if it counts, and leaves the last write of every other name as it was.

## Main definitions

* `Dir.Edit`, `Dir.edited`: A write to a directory, and what an empty one is after some of them.
* `Dir.inserted`: The names that the insertions among some edits write.
* `Dir.LastWrite`: What was written last under a name.

## Theorems

* `Dir.replace_of_mem`, `Dir.replace_of_notMem`: A replacement is an insertion, or nothing.
* `Dir.names_edited`: The names are those inserted, in the order of their first insertion.
* `Dir.lastWrite_concat_iff`: The last write after one more edit.
* `Dir.find?_edited_eq_some_iff`: What is found under a name is what was written last.
* `Dir.size_edited`: The entries are counted by the names inserted.
-/

namespace TreeShell.Dir

/-- A write to a directory. -/
inductive Edit where
  /-- Write a name, whether it is there or not. -/
  | insert (name : String) (node : Node)
  /-- Write a name if it is there. -/
  | replace (name : String) (node : Node)

namespace Edit

/-- The name that is written. -/
def name : Edit → String
  | insert name _ => name
  | replace name _ => name

/-- The name that an insertion writes. -/
def inserted? : Edit → Option String
  | insert name _ => some name
  | replace _ _ => none

end Edit

/-- The directory after one edit. -/
def edit (d : Dir) : Edit → Dir
  | .insert name node => d.insert name node
  | .replace name node => d.replace name node

/-- What some edits make of an empty directory. -/
def edited (edits : List Edit) : Dir := edits.foldl edit .empty

/-- The names that the insertions among some edits write, in their order. -/
def inserted (edits : List Edit) : List String := edits.filterMap Edit.inserted?

/-- An edit writes a node under a name, after the edits before it. -/
def Writes (before : List Edit) (e : Edit) (name : String) (node : Node) : Prop :=
  e = .insert name node ∨ e = .replace name node ∧ name ∈ inserted before

/-- Some edits write a node under a name, and none after that has this name. -/
def LastWrite (edits : List Edit) (name : String) (node : Node) : Prop :=
  ∃ before e later, edits = before ++ e :: later ∧ Writes before e name node ∧
    ∀ other ∈ later, other.name ≠ name

/-- A name is there exactly if something is found under it. -/
theorem find?_eq_none_iff {d : Dir} {name : String} : d.find? name = none ↔ name ∉ d.names := by
  constructor
  · intro h hmem
    obtain ⟨node, hfind⟩ := exists_find?_of_mem_names hmem
    rw [h] at hfind
    cases hfind
  · intro h
    cases hfind : d.find? name with
    | none => rfl
    | some node => exact absurd (List.mem_map_of_mem (mem_toList_of_find? hfind)) h

/-- Where the name is there, replacing its node is writing it. -/
theorem replace_of_mem {d : Dir} {name : String} (h : name ∈ d.names) (node : Node) :
    d.replace name node = d.insert name node := by
  induction d using Dir.rec (motive_1 := fun _ => True) with
  | empty => cases h
  | entry n old rest _ ih =>
      rw [replace, insert]
      split
      · rfl
      · rename_i hn
        rcases List.mem_cons.1 h with rfl | hrest
        · exact absurd rfl hn
        · rw [ih hrest]
  | _ => trivial

/-- Where it is not, nothing is changed. -/
theorem replace_of_notMem {d : Dir} {name : String} (h : name ∉ d.names) (node : Node) :
    d.replace name node = d := by
  induction d using Dir.rec (motive_1 := fun _ => True) with
  | empty => rfl
  | entry n old rest _ ih =>
      have hn : n ≠ name := fun he => h (he ▸ List.mem_cons_self)
      have hrest : name ∉ rest.names := fun hm => h (List.mem_cons_of_mem _ hm)
      rw [replace, if_neg hn, ih hrest]
  | _ => trivial

/-- A replacement leaves the names as they were. -/
theorem names_replace (name : String) (node : Node) (d : Dir) :
    (d.replace name node).names = d.names := by
  by_cases h : name ∈ d.names
  · rw [replace_of_mem h, names_insert, if_pos h]
  · rw [replace_of_notMem h]

/-- Of two replacements of one name the later one counts. -/
theorem replace_replace (name : String) (first second : Node) (d : Dir) :
    (d.replace name first).replace name second = d.replace name second := by
  by_cases h : name ∈ d.names
  · rw [replace_of_mem (d := d.replace name first) (by rwa [names_replace]), replace_of_mem h,
      replace_of_mem h, insert_insert]
  · rw [replace_of_notMem h]

/-- An edit with another name leaves what is found. -/
theorem find?_edit_of_ne {e : Edit} {name : String} (h : e.name ≠ name) (d : Dir) :
    (d.edit e).find? name = d.find? name := by
  cases e with
  | insert other node => exact find?_insert_of_ne (Ne.symm h) node d
  | replace other node =>
      rw [edit]
      by_cases hmem : other ∈ d.names
      · rw [replace_of_mem hmem]
        exact find?_insert_of_ne (Ne.symm h) node d
      · rw [replace_of_notMem hmem]

theorem edited_concat (edits : List Edit) (e : Edit) :
    edited (edits ++ [e]) = (edited edits).edit e := List.foldl_concat ..

theorem inserted_concat (edits : List Edit) (e : Edit) :
    inserted (edits ++ [e]) = inserted edits ++ e.inserted?.toList := by
  rw [inserted, List.filterMap_append]
  cases e <;> rfl

/-- The names are those inserted, each at the place of its first insertion. -/
theorem names_edited (edits : List Edit) :
    (edited edits).names = (inserted edits).eraseDups := by
  induction edits using List.reverseRecOn with
  | nil => rfl
  | append_singleton edits e ih =>
      rw [edited_concat, inserted_concat]
      cases e with
      | insert name node =>
          rw [edit, names_insert, ih, List.eraseDups_append]
          by_cases h : name ∈ inserted edits
          · simp [h, Edit.inserted?, List.removeAll]
          · simp [h, Edit.inserted?, List.removeAll, List.eraseDups_cons]
      | replace name node =>
          rw [edit, names_replace, ih]
          exact congrArg List.eraseDups (List.append_nil _).symm

theorem mem_names_edited_iff {edits : List Edit} {name : String} :
    name ∈ (edited edits).names ↔ name ∈ inserted edits := by
  rw [names_edited, List.mem_eraseDups]

/-- No name is there twice, since no insertion brings one a second time. -/
theorem nodup_names_edited (edits : List Edit) : (edited edits).names.Nodup := by
  induction edits using List.reverseRecOn with
  | nil => exact List.nodup_nil
  | append_singleton edits e ih =>
      rw [edited_concat]
      cases e with
      | insert name node => exact nodup_names_insert ih name node
      | replace name node =>
          rw [edit, names_replace]
          exact ih

theorem Writes.name_eq {before : List Edit} {e : Edit} {name : String} {node : Node}
    (h : Writes before e name node) : e.name = name := by
  rcases h with rfl | ⟨rfl, _⟩
  · rfl
  · rfl

/-- One more edit is the last write of its name, if it counts, and leaves that of any other. -/
theorem lastWrite_concat_iff {edits : List Edit} {e : Edit} {name : String} {node : Node} :
    LastWrite (edits ++ [e]) name node ↔
      Writes edits e name node ∨ e.name ≠ name ∧ LastWrite edits name node := by
  constructor
  · rintro ⟨before, e', later, hsplit, hwrites, hlater⟩
    rcases List.eq_nil_or_concat' later with rfl | ⟨later, last, rfl⟩
    · obtain ⟨rfl, hlast⟩ := List.append_inj' hsplit rfl
      rw [List.singleton_inj] at hlast
      exact .inl (hlast ▸ hwrites)
    · rw [← List.cons_append, ← List.append_assoc] at hsplit
      obtain ⟨rfl, hlast⟩ := List.append_inj' hsplit rfl
      rw [List.singleton_inj] at hlast
      rw [List.forall_mem_append, List.forall_mem_singleton] at hlater
      exact .inr ⟨hlast ▸ hlater.2, before, e', later, rfl, hwrites, hlater.1⟩
  · rintro (hwrites | ⟨hne, before, e', later, rfl, hwrites, hlater⟩)
    · exact ⟨edits, e, [], rfl, hwrites, List.forall_mem_nil _⟩
    · refine ⟨before, e', later ++ [e], by simp, hwrites, ?_⟩
      rw [List.forall_mem_append, List.forall_mem_singleton]
      exact ⟨hlater, hne⟩

/-- Under the name of an edit stands what it wrote, or nothing. -/
theorem find?_edit_eq_some_iff {edits : List Edit} {e : Edit} {node : Node} :
    ((edited edits).edit e).find? e.name = some node ↔ Writes edits e e.name node := by
  cases e with
  | insert name new => simp [edit, Edit.name, Writes]
  | replace name new =>
      rw [edit, Edit.name, Writes, ← mem_names_edited_iff]
      by_cases h : name ∈ (edited edits).names
      · rw [replace_of_mem h, find?_insert_self]
        simp [h]
      · rw [replace_of_notMem h, find?_eq_none_iff.2 h]
        simp [h]

/-- What is found under a name is what was written there last. -/
theorem find?_edited_eq_some_iff {edits : List Edit} {name : String} {node : Node} :
    (edited edits).find? name = some node ↔ LastWrite edits name node := by
  induction edits using List.reverseRecOn with
  | nil =>
      refine ⟨fun h => (by cases h), ?_⟩
      rintro ⟨before, e, later, hsplit, _⟩
      exact absurd hsplit.symm (List.append_ne_nil_of_right_ne_nil _ (List.cons_ne_nil _ _))
  | append_singleton edits e ih =>
      rw [edited_concat, lastWrite_concat_iff]
      by_cases hname : e.name = name
      · subst hname
        rw [find?_edit_eq_some_iff]
        exact ⟨.inl, fun h => h.resolve_right fun hother => hother.1 rfl⟩
      · rw [find?_edit_of_ne hname, ih]
        exact ⟨fun h => .inr ⟨hname, h⟩, fun h => (h.resolve_left fun hw => hname hw.name_eq).2⟩

/-- The entries are counted by the names inserted. -/
theorem size_edited (edits : List Edit) :
    (edited edits).size = (inserted edits).toFinset.card := by
  have hnames : (edited edits).names.toFinset = (inserted edits).toFinset := by
    ext name
    rw [List.mem_toFinset, List.mem_toFinset, mem_names_edited_iff]
  rw [← hnames, List.toFinset_card_of_nodup (nodup_names_edited edits), size, names,
    List.length_map]

end TreeShell.Dir
