import TreeShell.Proofs.Snapshot.Literal
import TreeShell.Proofs.Tree.Everywhere
import TreeShell.Snapshot.Printer
import TreeShell.Snapshot.Reader

/-!
# Reading What Was Printed

The printer and the reader of stored trees meet here. A printed name is a string literal in which
some characters are escaped. That is one of the many ways to write the name, and all of them are
read as it.

A printed tree is read back by induction on the tree. The reader has to be given something to stop
at, so each statement is about the printed form followed by arbitrary further text, which comes
back untouched. That is also what lets the statements be chained: the form of a node is followed by
the forms of its siblings, and the form of a directory by whatever follows the directory around it.

Two things can keep a printed tree from being read back, and both are hypotheses here. The names of
a directory may collide with each other or with the reserved key (`Dir.WellNamed`), and the tree may
be deeper than the reader follows.

## Main definitions

* `Dir.WellNamed`: The names are distinct, and none of them is the reserved one.

## Theorems

* `spelling_escape`: An escaped character is one way to write the character.
* `literal_escape`: A printed name is read as the name.
* `member_print`: A printed entry is written into what was read so far.
* `node_print`, `members_print`: A printed node, and the rest of a printed directory, are read back.
-/

namespace TreeShell

/-- The names of a directory are distinct, and none of them denies it. -/
def Dir.WellNamed (d : Dir) : Prop := d.names.Nodup ∧ ":" ∉ d.names

instance (d : Dir) : Decidable d.WellNamed := inferInstanceAs (Decidable (_ ∧ _))

namespace Snapshot

theorem hexValue?_hexDigit : ∀ n, n < 16 → Text.hexValue? (hexDigit n) = some n := by
  decide

/-- An escaped character is one way to write the character. -/
theorem spelling_escape (c : Char) : Spelling c (escape c) := by
  unfold escape
  split
  · subst_vars; exact .short (by decide)
  split
  · subst_vars; exact .short (by decide)
  split
  · subst_vars; exact .short (by decide)
  split
  · subst_vars; exact .short (by decide)
  split
  · subst_vars; exact .short (by decide)
  split
  · subst_vars; exact .short (by decide)
  split
  · subst_vars; exact .short (by decide)
  split
  · -- A control without a short escape: its code unit is the control itself.
    rename_i hc
    have hhi := hexValue?_hexDigit (c.toNat / 16) (by omega)
    have hlo := hexValue?_hexDigit (c.toNat % 16) (by omega)
    have hzero : Text.hexValue? '0' = some 0 := by decide
    refine .unit ⟨0, 0, c.toNat / 16, c.toNat % 16, ?_, by omega⟩
    simp only [List.map_cons, List.map_nil, hhi, hlo, hzero]
  · -- Any other character stands for itself, being neither quote, backslash nor control.
    rename_i hquote hbackslash _ _ _ _ _ hcontrol
    exact .plain hquote hbackslash (Nat.le_of_not_lt hcontrol)

/-- An escaped text is one way to write the text. -/
theorem key_escape (text : List Char) : Key text (text.flatMap escape) := by
  induction text with
  | nil => exact .nil
  | cons c text ih => exact .cons (spelling_escape c) ih

/-- A printed name, after its opening quote, is read as the name. -/
theorem literal_escape (name : String) (r : List Char) :
    literal (name.toList.flatMap escape ++ '"' :: r) = .ok (name, r) := by
  rw [literal_key (key_escape name.toList), String.ofList_toList]

/-- A printed entry is written into the entries read so far, if its node can be read. -/
theorem member_print {value : Scanner Node} {name : String} {n : Node} {s r : List Char}
    (hname : name ≠ ":") (hvalue : value s = .ok (n, r)) (entries : Dir) :
    member value (some entries) (name.toList.flatMap escape ++ '"' :: ':' :: s) =
      .ok (some (entries.insert name n), r) := by
  have hkey : (name == reservedKey) = false := by
    simpa only [reservedKey, beq_eq_false_iff_ne] using hname
  have hcolon : colon (':' :: s) = .ok s := rfl
  rw [member, literal_escape]
  simp only [bind, Except.bind, hcolon, hkey, hvalue]
  rfl

/-- Every entry takes up room, so the length of the text bounds the number of entries. -/
theorem size_lt_length_print (d : Dir) : d.size < d.print.length := by
  induction d using Dir.rec (motive_1 := fun _ => True) with
  | empty => exact Nat.one_pos
  | entry name n rest _ ih =>
      simp only [Dir.size, Dir.toList_entry, Dir.print, List.length_cons,
        List.length_append] at ih ⊢
      omega
  | _ => trivial

mutual

/-- A printed node is read back, where names do not collide and the reader may go deep enough. What
    follows the node is left for whoever reads on. -/
theorem node_print : ∀ (n : Node) (depth : Nat) (r : List Char), n.Everywhere Dir.WellNamed →
    n.height ≤ depth → node depth (n.print ++ r) = .ok (n, r)
  | .denied, depth, r, _, _ => by cases depth <;> rfl
  | .file true, depth, r, _, _ => by cases depth <;> rfl
  | .file false, depth, r, _, _ => by cases depth <;> rfl
  | .dir _, 0, _, _, hdepth => by
      rw [Node.height] at hdepth
      omega
  | .dir .empty, depth + 1, r, _, _ => rfl
  | .dir (.entry name child rest), depth + 1, r, h, hdepth => by
      obtain ⟨⟨hnodup, hcolon⟩, hchild, hrest⟩ := h
      simp only [Node.height, Dir.heightBelow] at hdepth
      have hname : name ≠ ":" := fun he => hcolon (he ▸ List.mem_cons_self)
      have hvalue := node_print child depth (rest.print ++ r) hchild (by omega)
      have hmember := member_print hname hvalue .empty
      -- The reader's bound is the length of the text, and every entry takes up some of it.
      have hmembers := members_print rest depth ((rest.print ++ r).length + 1)
        (Dir.empty.insert name child) r (fun hm => hcolon (List.mem_cons_of_mem _ hm)) hrest
        (by omega) (by
          have := size_lt_length_print rest
          rw [List.length_append]
          omega)
      -- The first entry starts the directory that the others are written into.
      have hall : (Dir.empty.insert name child).insertAll rest.toList = .entry name child rest :=
        Dir.ofList_toList hnodup
      have hobject : object (node depth) ('"' :: (name.toList.flatMap escape ++
          '"' :: ':' :: (child.print ++ (rest.print ++ r)))) =
            .ok (.dir (.entry name child rest), r) := by
        change (member (node depth) (some .empty) _ >>= _) = _
        rw [hmember, ← hall]
        exact hmembers
      rw [← hobject]
      simp only [Node.print, quote, List.cons_append, List.append_assoc, List.nil_append]
      rfl

/-- The printed entries from the second on are written, one after the other, into what was read
    before them. -/
theorem members_print : ∀ (d : Dir) (depth bound : Nat) (entries : Dir) (r : List Char),
    ":" ∉ d.names → d.Below Dir.WellNamed → d.heightBelow ≤ depth → d.size < bound →
      members (node depth) bound (some entries) (d.print ++ r) =
        .ok (.dir (entries.insertAll d.toList), r)
  | _, _, 0, _, _, _, _, _, hbound => absurd hbound (Nat.not_lt_zero _)
  | .empty, depth, bound + 1, entries, r, _, _, _, _ => rfl
  | .entry name child rest, depth, bound + 1, entries, r, hcolon, h, hdepth, hbound => by
      obtain ⟨hchild, hrest⟩ := h
      simp only [Dir.heightBelow] at hdepth
      simp only [Dir.size, Dir.toList_entry, List.length_cons] at hbound
      have hname : name ≠ ":" := fun he => hcolon (he ▸ List.mem_cons_self)
      have hvalue := node_print child depth (rest.print ++ r) hchild (by omega)
      have hmember := member_print hname hvalue entries
      have hmembers := members_print rest depth bound (entries.insert name child) r
        (fun hm => hcolon (List.mem_cons_of_mem _ hm)) hrest (by omega)
        (by rw [Dir.size]; omega)
      simp only [Dir.print, quote, List.cons_append, List.append_assoc, List.nil_append]
      change (member (node depth) (some entries) _ >>= _) = _
      rw [hmember]
      exact hmembers

end

end Snapshot

end TreeShell
