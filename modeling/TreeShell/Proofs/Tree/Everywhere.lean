import TreeShell.Tree.Lookup

/-!
# Properties of Every Directory

What is said of a tree is mostly said of each of its readable directories: that its names are
distinct, that it does not hold a reserved name. `Node.Everywhere` carries such a property to every
readable directory at or below a node, whatever its depth. It recurses with the spine of the tree,
and `Dir.below_iff` is the view that forgets the spine again, so a later proof speaks of the entries
of a directory and not of how they are held.

The depth of a tree is counted in readable directories. A denied directory ends a chain as a file
does: nothing can be reached through it, and nothing of it is stored.

Reading a tree back means writing its entries one after the other into an empty directory. Where
the names are distinct no write meets an earlier one, and the directory that comes out is the one
that was written down (`Dir.ofList_toList`).

## Main definitions

* `Node.Everywhere`, `Dir.Everywhere`: A property of every readable directory of a tree.
* `Node.height`, `Dir.height`: How many readable directories the longest chain has.
* `Dir.insertAll`: A directory with entries written into it, one after the other.

## Theorems

* `Dir.below_iff`, `Dir.heightBelow_le_iff`: Both notions, said of the entries.
* `Node.everywhere_of_follow`: What holds everywhere holds of what is found.
* `Dir.toList_injective`: A directory is the list of its entries.
* `Dir.mem_toList_insert`: A write brings no entry but its own.
* `Dir.toList_insertAll`: Writing new names appends their entries.
* `Dir.ofList_toList`: A directory with distinct names is what its entries make.
-/

namespace TreeShell

mutual

/-- `P` holds of every readable directory at or below a node. -/
def Node.Everywhere (P : Dir → Prop) : Node → Prop
  | .dir entries => P entries ∧ entries.Below P
  | .denied => True
  | .file _ => True

/-- `P` holds of every readable directory below a directory, but not necessarily of itself. -/
def Dir.Below (P : Dir → Prop) : Dir → Prop
  | .empty => True
  | .entry _ node rest => node.Everywhere P ∧ rest.Below P

end

/-- `P` holds of every readable directory of a tree, the root included. -/
def Dir.Everywhere (P : Dir → Prop) (root : Dir) : Prop := (Node.dir root).Everywhere P

mutual

/-- How many readable directories the longest chain has that begins at a node. -/
def Node.height : Node → Nat
  | .dir entries => entries.heightBelow + 1
  | .denied => 0
  | .file _ => 0

/-- The same for the longest chain that begins at an entry of a directory. -/
def Dir.heightBelow : Dir → Nat
  | .empty => 0
  | .entry _ node rest => max node.height rest.heightBelow

end

/-- How many readable directories the longest chain of a tree has, the root included. -/
def Dir.height (root : Dir) : Nat := (Node.dir root).height

mutual

/-- A decidable property can be decided everywhere. -/
def Node.decidableEverywhere (P : Dir → Prop) [DecidablePred P] :
    (node : Node) → Decidable (node.Everywhere P)
  | .dir entries =>
      have := entries.decidableBelow P
      inferInstanceAs (Decidable (P entries ∧ entries.Below P))
  | .denied => .isTrue trivial
  | .file _ => .isTrue trivial

/-- The same below a directory. -/
def Dir.decidableBelow (P : Dir → Prop) [DecidablePred P] : (d : Dir) → Decidable (d.Below P)
  | .empty => .isTrue trivial
  | .entry _ node rest =>
      have := node.decidableEverywhere P
      have := rest.decidableBelow P
      inferInstanceAs (Decidable (node.Everywhere P ∧ rest.Below P))

end

instance (P : Dir → Prop) [DecidablePred P] (root : Dir) : Decidable (root.Everywhere P) :=
  (Node.dir root).decidableEverywhere P

namespace Dir

/-- What holds below a directory holds at and below each of its entries. -/
theorem below_iff {P : Dir → Prop} (d : Dir) :
    d.Below P ↔ ∀ e ∈ d.toList, e.2.Everywhere P := by
  induction d using Dir.rec (motive_1 := fun _ => True) with
  | empty => simp only [Below, toList_empty, List.not_mem_nil, false_implies, implies_true]
  | entry name node rest _ ih =>
      rw [Below, ih, toList_entry, List.forall_mem_cons]
  | _ => trivial

/-- The longest chain below a directory is bounded where those of its entries are. -/
theorem heightBelow_le_iff {n : Nat} (d : Dir) :
    d.heightBelow ≤ n ↔ ∀ e ∈ d.toList, e.2.height ≤ n := by
  induction d using Dir.rec (motive_1 := fun _ => True) with
  | empty =>
      simp only [heightBelow, Nat.zero_le, toList_empty, List.not_mem_nil, false_implies,
        implies_true]
  | entry name node rest _ ih =>
      rw [heightBelow, Nat.max_le, ih, toList_entry, List.forall_mem_cons]
  | _ => trivial

/-- What is found is an entry. -/
theorem mem_toList_of_find? {d : Dir} {name : String} {node : Node}
    (h : d.find? name = some node) : (name, node) ∈ d.toList := by
  induction d using Dir.rec (motive_1 := fun _ => True) with
  | empty => cases h
  | entry n old rest _ ih =>
      rw [find?] at h
      split at h
      · rename_i hn
        cases h
        rw [hn]
        exact List.mem_cons_self
      · exact List.mem_cons_of_mem _ (ih h)
  | _ => trivial

/-- Under a name that is there, something is found. -/
theorem exists_find?_of_mem_names {d : Dir} {name : String} (h : name ∈ d.names) :
    ∃ node, d.find? name = some node := by
  induction d using Dir.rec (motive_1 := fun _ => True) with
  | empty => cases h
  | entry n old rest _ ih =>
      rw [find?]
      split
      · exact ⟨old, rfl⟩
      · rename_i hn
        rcases List.mem_cons.1 h with rfl | hrest
        · exact absurd rfl hn
        · exact ih hrest
  | _ => trivial

/-- The spine holds nothing but the entries and their order. -/
theorem toList_injective : Function.Injective toList := by
  intro d
  induction d using Dir.rec (motive_1 := fun _ => True) with
  | empty =>
      intro other h
      cases other with
      | empty => rfl
      | entry => cases h
  | entry name node rest _ ih =>
      intro other h
      cases other with
      | empty => cases h
      | entry name' node' rest' =>
          rw [toList_entry, toList_entry, List.cons.injEq, Prod.mk.injEq] at h
          rw [h.1.1, h.1.2, ih h.2]
  | _ => trivial

/-- A write brings no entry but its own: every other one was there before. -/
theorem mem_toList_insert {name : String} {node : Node} {d : Dir} {e : String × Node}
    (h : e ∈ (d.insert name node).toList) : e = (name, node) ∨ e ∈ d.toList := by
  induction d using Dir.rec (motive_1 := fun _ => True) with
  | empty => exact .inl (List.mem_singleton.1 h)
  | entry n old rest _ ih =>
      rw [insert] at h
      split at h
      · -- The write lands on this entry, and leaves the rest alone.
        rename_i hn
        rcases List.mem_cons.1 h with rfl | h
        · exact .inl (by rw [hn])
        · exact .inr (List.mem_cons_of_mem _ h)
      · rcases List.mem_cons.1 h with rfl | h
        · exact .inr List.mem_cons_self
        · rcases ih h with he | he
          · exact .inl he
          · exact .inr (List.mem_cons_of_mem _ he)
  | _ => trivial

/-- A new name goes last. -/
theorem toList_insert_of_notMem {name : String} (node : Node) {d : Dir} (h : name ∉ d.names) :
    (d.insert name node).toList = d.toList ++ [(name, node)] := by
  induction d using Dir.rec (motive_1 := fun _ => True) with
  | empty => rfl
  | entry n old rest _ ih =>
      -- The name is none of those on the way, so the write walks past them all.
      have hn : n ≠ name := fun he => h (he ▸ List.mem_cons_self)
      have hrest : name ∉ rest.names := fun hm => h (List.mem_cons_of_mem _ hm)
      rw [insert, if_neg hn, toList_entry, toList_entry, ih hrest, List.cons_append]
  | _ => trivial

/-- `d` with entries written into it, one after the other. -/
def insertAll (entries : List (String × Node)) (d : Dir) : Dir :=
  entries.foldl (fun d e => d.insert e.1 e.2) d

/-- Where all names are distinct, those of the directory and those of the entries, no write meets
    an earlier one, and the entries come to stand behind what was there. -/
theorem toList_insertAll (entries : List (String × Node)) (d : Dir)
    (h : (d.names ++ entries.map Prod.fst).Nodup) :
    (d.insertAll entries).toList = d.toList ++ entries := by
  induction entries generalizing d with
  | nil => rw [insertAll, List.foldl_nil, List.append_nil]
  | cons e entries ih =>
      have hnew : e.1 ∉ d.names := fun hm =>
        (List.nodup_append.1 h).2.2 _ hm _ List.mem_cons_self rfl
      have hlist := toList_insert_of_notMem e.2 hnew
      have hnames : (d.insert e.1 e.2).names = d.names ++ [e.1] := by
        rw [names_insert, if_neg hnew]
      -- The name just written has moved to the directory's own side of the list.
      have hrest := ih (d.insert e.1 e.2) (by
        rw [hnames, List.append_assoc]
        exact h)
      rw [insertAll, List.foldl_cons]
      rw [insertAll, hlist, List.append_assoc] at hrest
      exact hrest

/-- A directory with distinct names is what its entries make when they are written in order. -/
theorem ofList_toList {d : Dir} (h : d.names.Nodup) : ofList d.toList = d :=
  toList_injective (toList_insertAll d.toList .empty h)

end Dir

/-- What holds everywhere at or below a node holds everywhere at or below what is found from it. -/
theorem Node.everywhere_of_follow {P : Dir → Prop} {start target : Node} {segments : List String}
    (h : start.Everywhere P) (hfollow : start.follow segments = some target) :
    target.Everywhere P := by
  induction segments generalizing start with
  | nil =>
      rw [follow_nil, Option.some.injEq] at hfollow
      exact hfollow ▸ h
  | cons name rest ih =>
      cases start with
      | dir entries =>
          rw [follow] at hfollow
          cases hfind : entries.find? name with
          | none =>
              rw [hfind] at hfollow
              cases hfollow
          | some child =>
              rw [hfind] at hfollow
              exact ih ((Dir.below_iff entries).1 h.2 _ (Dir.mem_toList_of_find? hfind)) hfollow
      | denied =>
          rw [follow_denied, Option.some.injEq] at hfollow
          exact hfollow ▸ h
      | file => cases hfollow

end TreeShell
