import TreeShell.Proofs.Snapshot.Printed

/-!
# Trees That Survive Being Stored

Not every tree can be stored. A name that is the reserved key denies the directory it stands in,
a name that comes twice loses its first node, and a tree that is too deep is refused by the reader.
`Dir.Storable` excludes exactly these, and `read_snapshot_iff_storable` says that it excludes
nothing else: the storable trees are the ones that are read back as themselves, and they are also
the only ones that any text can be read as. What a store hands out can therefore be stored again
without loss, whoever wrote it.

The second half is about every text and not only about printed ones, so it is no induction on a
tree. The reader is followed instead, on the number of objects it may still open. What it has read
of an object is `Codable` at every moment: no name has come twice, since a second one replaces the
first, and the reserved key ends the collecting before it could become a name.

## Main definitions

* `Dir.Storable`: Names collide nowhere, and no chain of readable directories is too long.
* `Snapshot.Codable`: The same for a node and a number of objects that may be opened.
* `Snapshot.Collected`: What was read of an object so far may become a node.

## Theorems

* `nodeWith_eq_ok`, `member_eq_ok`: What a node and a member can be read as.
* `members_codable`, `node_codable`: Whatever is read is codable.
* `read_snapshot_iff_storable`: The storable trees are those that are read back, and no text is read
  as any other.
-/

namespace TreeShell

/-- Names collide nowhere, neither with each other nor with the reserved one, and no chain of
    readable directories, the root included, has more than 127 of them. -/
structure Dir.Storable (root : Dir) : Prop where
  wellNamed : root.Everywhere Dir.WellNamed
  shallow : root.height ≤ 127

theorem Dir.storable_iff (root : Dir) :
    root.Storable ↔ root.Everywhere Dir.WellNamed ∧ root.height ≤ 127 :=
  ⟨fun h => ⟨h.wellNamed, h.shallow⟩, fun h => ⟨h.1, h.2⟩⟩

instance (root : Dir) : Decidable root.Storable :=
  decidable_of_iff' _ root.storable_iff

namespace Snapshot

/-- A reading that goes on after another one succeeds where both do. -/
theorem bind_eq_ok {ε α β : Type} {x : Except ε α} {f : α → Except ε β} {b : β} :
    x >>= f = .ok b ↔ ∃ a, x = .ok a ∧ f a = .ok b := by
  cases x with
  | error e => simp only [bind, Except.bind, reduceCtorEq, false_and, exists_false]
  | ok a => simp only [bind, Except.bind, Except.ok.injEq, exists_eq_left']

/-- A node that can be stored where objects may nest `depth` deep. -/
def Codable (depth : Nat) (n : Node) : Prop := n.Everywhere Dir.WellNamed ∧ n.height ≤ depth

theorem codable_denied (depth : Nat) : Codable depth .denied := ⟨trivial, Nat.zero_le _⟩

theorem codable_file (depth : Nat) (readable : Bool) : Codable depth (.file readable) :=
  ⟨trivial, Nat.zero_le _⟩

/-- A readable directory takes one object, and its entries have to make do with the rest. -/
theorem codable_dir_iff {depth : Nat} {entries : Dir} :
    Codable (depth + 1) (.dir entries) ↔
      entries.WellNamed ∧ ∀ e ∈ entries.toList, Codable depth e.2 := by
  simp only [Codable, Node.Everywhere, Node.height, Nat.add_le_add_iff_right, Dir.below_iff,
    Dir.heightBelow_le_iff, forall_and, and_assoc]

theorem codable_empty (depth : Nat) : Codable (depth + 1) (.dir .empty) :=
  codable_dir_iff.2 ⟨⟨List.nodup_nil, List.not_mem_nil⟩, fun _ h => absurd h List.not_mem_nil⟩

/-- Writing an entry keeps a directory codable, whether the name is new or comes again. -/
theorem codable_insert {depth : Nat} {entries : Dir} {name : String} {n : Node}
    (hentries : Codable (depth + 1) (.dir entries)) (hname : name ≠ ":") (hn : Codable depth n) :
    Codable (depth + 1) (.dir (entries.insert name n)) := by
  -- A name that comes again keeps its place, and a new one is not the reserved one.
  rcases codable_dir_iff.1 hentries with ⟨⟨hnodup, hcolon⟩, hnodes⟩
  refine codable_dir_iff.2 ⟨⟨Dir.nodup_names_insert hnodup name n, ?_⟩, ?_⟩
  · rw [Dir.names_insert]
    split
    · exact hcolon
    · intro hm
      rcases List.mem_append.1 hm with hm | hm
      · exact hcolon hm
      · exact hname (List.mem_singleton.1 hm).symm
  · intro e he
    rcases Dir.mem_toList_insert he with rfl | he
    · exact hn
    · exact hnodes e he

/-- What was read of an object so far may become a node: it is codable if it is anything at all. -/
def Collected (depth : Nat) (acc : Partial) : Prop :=
  ∀ entries, acc = some entries → Codable (depth + 1) (.dir entries)

theorem collected_start (depth : Nat) : Collected depth (some .empty) := by
  intro entries he
  rw [← Option.some.inj he]
  exact codable_empty depth

/-- What a member adds: nothing once the object is denied, and else one entry whose name is not the
    reserved one. -/
theorem member_eq_ok {value : Scanner Node} {acc acc' : Partial} {s r : List Char}
    (h : member value acc s = .ok (acc', r)) :
    acc' = none ∨ ∃ entries name n s', acc = some entries ∧ name ≠ ":" ∧
      value s' = .ok (n, r) ∧ acc' = some (entries.insert name n) := by
  rw [member, bind_eq_ok] at h
  rcases h with ⟨⟨name, s₁⟩, _, h⟩
  rw [bind_eq_ok] at h
  rcases h with ⟨s₂, _, h⟩
  split at h
  · -- The key is a name, and the object is not denied yet.
    rename_i entries hname
    rw [bind_eq_ok] at h
    rcases h with ⟨⟨n, s₃⟩, hvalue, h⟩
    cases h
    exact .inr ⟨entries, name, n, s₂, rfl, by simpa [reservedKey] using hname, hvalue, rfl⟩
  · rw [bind_eq_ok] at h
    rcases h with ⟨s₃, _, h⟩
    cases h
    exact .inl rfl

/-- What a node can be read as: a denied directory, a file, or whatever an object is read as. -/
theorem nodeWith_eq_ok {inner : Option (Scanner Node)} {s r : List Char} {n : Node}
    (h : nodeWith inner s = .ok (n, r)) :
    n = .denied ∨ (∃ readable, n = .file readable) ∨
      ∃ read s', inner = some read ∧ read s' = .ok (n, r) := by
  rw [nodeWith] at h
  split at h
  · cases h
  · rcases bind_eq_ok.1 h with ⟨s', _, h⟩
    cases h
    exact .inl rfl
  · rcases bind_eq_ok.1 h with ⟨s', _, h⟩
    cases h
    exact .inr (.inl ⟨true, rfl⟩)
  · rcases bind_eq_ok.1 h with ⟨s', _, h⟩
    cases h
    exact .inr (.inl ⟨false, rfl⟩)
  · split at h
    · exact .inr (.inr ⟨_, _, rfl, h⟩)
    · cases h
  -- An array, a string and a number are scanned to be named in the refusal, never to be read.
  · cases h
  · rcases bind_eq_ok.1 h with ⟨_, _, h⟩
    cases h
  · split at h
    · rcases bind_eq_ok.1 h with ⟨_, _, h⟩
      cases h
    · cases h

section Reader

variable {value : Scanner Node} {depth : Nat}

theorem member_collected (hvalue : ∀ s n r, value s = .ok (n, r) → Codable depth n)
    {acc acc' : Partial} {s r : List Char} (hacc : Collected depth acc)
    (h : member value acc s = .ok (acc', r)) : Collected depth acc' := by
  intro entries' he
  rcases member_eq_ok h with rfl | ⟨entries, name, n, s', rfl, hname, hn, rfl⟩
  · cases he
  · rw [← Option.some.inj he]
    exact codable_insert (hacc entries rfl) hname (hvalue _ _ _ hn)

/-- The members that are left cannot spoil what was collected, by induction on the reader's
    turns. -/
theorem members_codable (hvalue : ∀ s n r, value s = .ok (n, r) → Codable depth n)
    (bound : Nat) : ∀ (acc : Partial) (s : List Char) (n : Node) (r : List Char),
      Collected depth acc → members value bound acc s = .ok (n, r) → Codable (depth + 1) n := by
  induction bound with
  | zero =>
      intro acc s n r _ h
      cases h
  | succ bound ih =>
      intro acc s n r hacc h
      rw [members] at h
      split at h
      · cases h
      · -- The object ends here, and what was collected becomes the node.
        cases h
        cases acc with
        | none => exact codable_denied _
        | some entries => exact hacc entries rfl
      · rcases bind_eq_ok.1 h with ⟨s₁, _, h⟩
        rcases bind_eq_ok.1 h with ⟨⟨acc', s₂⟩, hmember, h⟩
        exact ih acc' s₂ n r (member_collected hvalue hacc hmember) h
      · cases h

theorem object_codable (hvalue : ∀ s n r, value s = .ok (n, r) → Codable depth n)
    {s r : List Char} {n : Node} (h : object value s = .ok (n, r)) : Codable (depth + 1) n := by
  rw [object] at h
  split at h
  · rcases bind_eq_ok.1 h with ⟨⟨acc, s₁⟩, hmember, h⟩
    have hacc := member_collected hvalue (collected_start depth) hmember
    exact members_codable hvalue _ acc s₁ n r hacc h
  · cases h
  · cases h
    exact codable_empty depth
  · cases h

end Reader

/-- Whatever is read is codable, by induction on how many objects may still be opened. -/
theorem node_codable (depth : Nat) : ∀ (s : List Char) (n : Node) (r : List Char),
    node depth s = .ok (n, r) → Codable depth n := by
  induction depth with
  | zero =>
      intro s n r h
      rcases nodeWith_eq_ok h with rfl | ⟨readable, rfl⟩ | ⟨read, s', hread, _⟩
      · exact codable_denied _
      · exact codable_file _ _
      · cases hread
  | succ depth ih =>
      intro s n r h
      rcases nodeWith_eq_ok h with rfl | ⟨readable, rfl⟩ | ⟨read, s', hread, hobject⟩
      · exact codable_denied _
      · exact codable_file _ _
      · rw [← Option.some.inj hread] at hobject
        exact object_codable ih hobject

theorem readNode_snapshot {n : Node} (h : Codable maxDepth n) : readNode n.snapshot = .ok n := by
  have hread := node_print n maxDepth [] h.1 h.2
  rw [List.append_nil] at hread
  rw [readNode, Node.snapshot, String.toList_ofList, hread]
  rfl

/-- A storable tree is read back as itself. -/
theorem read_snapshot {root : Dir} (h : root.Storable) : read root.snapshot = .ok root := by
  rw [read, Dir.snapshot, readNode_snapshot ⟨h.wellNamed, h.shallow⟩]

/-- No text is read as a tree that could not be stored. -/
theorem storable_of_read {text : String} {root : Dir} (h : read text = .ok root) :
    root.Storable := by
  unfold read at h
  split at h
  · rename_i found hnode
    cases h
    rcases bind_eq_ok.1 hnode with ⟨⟨n, rest⟩, hscan, hend⟩
    change (if (skipSpace rest).isEmpty then pure n else throw ReadFault.malformed) = _ at hend
    split at hend
    · cases hend
      have hcodable := node_codable _ _ _ _ hscan
      exact ⟨hcodable.1, hcodable.2⟩
    · cases hend
  · cases h
  · cases h
  · cases h

/-- The storable trees are those that are read back as themselves, and no text is read as any other
    tree. So what was read from a text can be stored and read again without loss. -/
theorem read_snapshot_iff_storable (root : Dir) :
    (read root.snapshot = .ok root ↔ root.Storable) ∧
      ∀ text, read text = .ok root → root.Storable ∧ read root.snapshot = .ok root :=
  ⟨⟨storable_of_read, read_snapshot⟩, fun _ h =>
    ⟨storable_of_read h, read_snapshot (storable_of_read h)⟩⟩

/-- Names of every kind: none at all, quotes and backslashes, controls with and without a short
    escape, a character beyond sixteen bits, and one that begins like the reserved key. -/
theorem read_snapshot_odd_names :
    let names : Dir := .ofList [("", .denied), ("\"\\/", .file true), ("\x01\n", .file false)]
    let root : Dir := .ofList [("😀", .dir names), ("::", .dir (.ofList [("a b", .dir .empty)]))]
    root.Storable ∧ read root.snapshot = .ok root := by
  intro names root
  have h : root.Storable := by decide
  exact ⟨h, (read_snapshot_iff_storable root).1.2 h⟩

end Snapshot

end TreeShell
