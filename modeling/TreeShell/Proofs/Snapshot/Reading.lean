import TreeShell.Proofs.Snapshot.Meaning
import TreeShell.Proofs.Snapshot.Passed
import TreeShell.Proofs.Snapshot.Storable

/-!
# What a Document Is Read As

The reader comes to the node that a document stands for, and to nothing where it stands for none or
nests too deep. It does so for every written form of the document.

The induction is on the document. The reader writes the members of an object into a directory as
they come, so the statement about the members that are left has to know what was read before them:
`Members.Yields` says what an object comes to from there. Once the object is denied it comes to a
denied directory whatever is left, because everything that is left is only passed over.

## Main definitions

* `Members.Yields`: What an object comes to, from what was read of it so far.

## Theorems

* `Members.yields_cons`: How one member changes that.
* `member_spelled`: One member is read.
* `Json.node_iff`, `Members.rest_iff`: A value, and what is left of an object, is read as what it
  stands for.
* `read_document`: A document is read as the tree it stands for, if it nests at most 127 deep.
-/

namespace TreeShell.Snapshot

/-- What an object comes to if the members are left of it: what it was denied before stays denied,
    and else the entries of the members are written into what there is. -/
def Members.Yields (depth : Nat) (members : Members) : Partial → Node → Prop
  | none, n => n = .denied
  | some entries, n => members.depth ≤ depth ∧ (members.Deny ∧ n = .denied ∨
      ∃ more, members.Mean more ∧ n = .dir (entries.insertAll more))

theorem Members.yields_nil (depth : Nat) (acc : Partial) (n : Node) :
    Members.nil.Yields depth acc n ↔ n = (acc.map Node.dir).getD .denied := by
  cases acc with
  | none => rfl
  | some entries =>
      constructor
      · rintro ⟨_, ⟨h, _⟩ | ⟨more, h, rfl⟩⟩
        · cases h
        · cases h
          rfl
      · rintro rfl
        exact ⟨Nat.zero_le _, .inr ⟨[], .nil, rfl⟩⟩

theorem Members.yields_reserved (depth : Nat) (value : Json) (rest : Members) (acc : Partial)
    (n : Node) : (Members.cons ":" value rest).Yields depth acc n ↔ n = .denied := by
  cases acc with
  | none => rfl
  | some entries =>
      constructor
      · rintro ⟨_, ⟨_, rfl⟩ | ⟨more, h, _⟩⟩
        · rfl
        · cases h with
          | cons hkey => exact absurd rfl hkey
      · rintro rfl
        refine ⟨?_, .inl ⟨.here value rest, rfl⟩⟩
        rw [Members.depth, if_pos rfl]
        exact Nat.zero_le _

/-- A member with a name has to stand for a node, which is written under the name. -/
theorem Members.yields_cons {depth : Nat} {key : String} (hkey : key ≠ ":") {value : Json}
    {rest : Members} {entries : Dir} {n : Node} :
    (Members.cons key value rest).Yields depth (some entries) n ↔
      ∃ node, value.Means node ∧ value.depth ≤ depth ∧
        rest.Yields depth (some (entries.insert key node)) n := by
  have hdepth : (Members.cons key value rest).depth ≤ depth ↔
      value.depth ≤ depth ∧ rest.depth ≤ depth := by
    rw [Members.depth, if_neg hkey, Nat.max_le]
  constructor
  · rintro ⟨hle, h⟩
    rcases hdepth.1 hle with ⟨hvalue, hrest⟩
    rcases h with ⟨h, rfl⟩ | ⟨more, h, rfl⟩
    · cases h with
      | here => exact absurd rfl hkey
      | later _ hmeans hdeny => exact ⟨_, hmeans, hvalue, hrest, .inl ⟨hdeny, rfl⟩⟩
    · cases h with
      | cons _ hmeans hmean => exact ⟨_, hmeans, hvalue, hrest, .inr ⟨_, hmean, rfl⟩⟩
  · rintro ⟨node, hmeans, hvalue, hrest, h⟩
    refine ⟨hdepth.2 ⟨hvalue, hrest⟩, ?_⟩
    rcases h with ⟨hdeny, rfl⟩ | ⟨more, hmean, rfl⟩
    · exact .inl ⟨.later hkey hmeans hdeny, rfl⟩
    · exact .inr ⟨_, .cons hkey hmeans hmean, rfl⟩

/-- An object stands for what it comes to from nothing. -/
theorem Json.means_object {depth : Nat} {members : Members} {n : Node} :
    (Json.object members).Means n ∧ (Json.object members).depth ≤ depth + 1 ↔
      members.Yields depth (some .empty) n := by
  rw [Json.depth, Nat.add_le_add_iff_right]
  constructor
  · rintro ⟨h, hdepth⟩
    cases h with
    | denied h => exact ⟨hdepth, .inl ⟨h, rfl⟩⟩
    | dir h hd => exact ⟨hdepth, .inr ⟨_, h, congrArg Node.dir (gathered_iff.1 hd)⟩⟩
  · rintro ⟨hdepth, ⟨h, rfl⟩ | ⟨more, h, rfl⟩⟩
    · exact ⟨.denied h, hdepth⟩
    · exact ⟨.dir h (gathered_iff.2 rfl), hdepth⟩

/-- `scan` reads the written forms of `j` as what `j` stands for, and leaves what follows. -/
def Reads (scan : Scanner Node) (depth : Nat) (j : Json) (v : List Char) : Prop :=
  ∀ r, Stops r → ∀ n r', scan (v ++ r) = .ok (n, r') ↔ j.Means n ∧ j.depth ≤ depth ∧ r' = r

section Member

variable {scan : Scanner Node} {key : String} {k b' : List Char} (hkey : Key key.toList k)
  (hb' : Blanks b')

include hkey hb'

/-- Under a name a node is read, and written into the entries. -/
theorem member_named (hname : key ≠ ":") (entries : Dir) (s : List Char) :
    member scan (some entries) (k ++ '"' :: (b' ++ ':' :: s)) =
      scan s >>= fun x => .ok (some (entries.insert key x.1), x.2) := by
  have hreserved : (key == reservedKey) = false := beq_false_of_ne hname
  rw [member, literal_key hkey]
  simp only [bind, Except.bind, String.ofList_toList, colon_blanks hb', hreserved]
  rfl

/-- Under the reserved key, and after it, a value is passed. -/
theorem member_passed {acc : Partial} (hdenied : key = ":" ∨ acc = none) {s r : List Char}
    (hpass : passValue s = .ok r) :
    member scan acc (k ++ '"' :: (b' ++ ':' :: s)) = .ok (none, r) := by
  rw [member, literal_key hkey]
  simp only [bind, Except.bind, String.ofList_toList, colon_blanks hb', hpass]
  rcases hdenied with rfl | rfl
  · rfl
  · cases key == reservedKey <;> rfl

/-- One member is read, with all that is left after it. -/
theorem member_spelled {depth : Nat} {value : Json} {v cs r : List Char}
    (hvalue : value.Spelled v) (hreads : Reads scan depth value v) (hstops : Stops (cs ++ r))
    {rest : Members} (onwards : Partial → List Char → Except ReadFault (Node × List Char))
    (hrest : ∀ acc n r', onwards acc (cs ++ r) = .ok (n, r') ↔ rest.Yields depth acc n ∧ r' = r)
    (acc : Partial) (n : Node) (r' : List Char) :
    (member scan acc (k ++ '"' :: (b' ++ ':' :: (v ++ (cs ++ r)))) >>= fun x => onwards x.1 x.2) =
        .ok (n, r') ↔
      (Members.cons key value rest).Yields depth acc n ∧ r' = r := by
  have hpass := passValue_spelled hvalue hstops
  by_cases hname : key = ":"
  · rw [member_passed hkey hb' (.inl hname) hpass]
    refine (hrest none n r').trans ?_
    rw [hname, Members.yields_reserved]
    rfl
  · cases acc with
    | none =>
        rw [member_passed hkey hb' (.inr rfl) hpass]
        exact hrest none n r'
    | some entries =>
        rw [member_named hkey hb' hname, Members.yields_cons hname, bind_eq_ok]
        constructor
        · rintro ⟨x, hx, h⟩
          rcases bind_eq_ok.1 hx with ⟨⟨node, r''⟩, hscan, hx⟩
          cases hx
          rcases (hreads _ hstops node r'').1 hscan with ⟨hmeans, hdepth, rfl⟩
          rcases (hrest _ n r').1 h with ⟨hyields, rfl⟩
          exact ⟨⟨node, hmeans, hdepth, hyields⟩, rfl⟩
        · rintro ⟨⟨node, hmeans, hdepth, hyields⟩, rfl⟩
          have hscan := (hreads _ hstops node _).2 ⟨hmeans, hdepth, rfl⟩
          exact ⟨_, bind_eq_ok.2 ⟨_, hscan, rfl⟩, (hrest _ n _).2 ⟨hyields, rfl⟩⟩

end Member

/-- A value that is no node is refused, with whatever fault. -/
theorem reads_refused {depth : Nat} {j : Json} {v : List Char} (hnone : ∀ n, ¬ j.Means n)
    (h : ∀ r, Stops r → ∃ fault, node depth (v ++ r) = .error fault) :
    Reads (node depth) depth j v := by
  intro r hr n r'
  rcases h r hr with ⟨fault, hfault⟩
  rw [hfault]
  exact ⟨fun he => (by cases he), fun hm => absurd hm.1 (hnone n)⟩

/-- A value that is one node, whatever follows it. -/
theorem reads_leaf {depth : Nat} {j : Json} {v : List Char} {leaf : Node}
    (hmeans : ∀ n, j.Means n ↔ n = leaf) (hdepth : j.depth = 0)
    (h : ∀ r, node depth (v ++ r) = .ok (leaf, r)) : Reads (node depth) depth j v := by
  intro r _ n r'
  rw [h, hmeans, hdepth, Except.ok.injEq, Prod.mk.injEq]
  constructor
  · rintro ⟨rfl, rfl⟩
    exact ⟨rfl, Nat.zero_le _, rfl⟩
  · rintro ⟨rfl, _, rfl⟩
    exact ⟨rfl, rfl⟩

/-- A node is looked for after the blanks. -/
theorem node_blanks {b s : List Char} (hb : Blanks b) (depth : Nat) :
    node depth (b ++ s) = node depth s := by
  cases depth <;> rw [node, nodeWith, nodeWith, skipSpace_blanks hb]

theorem exists_error_bind {ε α β : Type} (x : Except ε α) {f : α → Except ε β}
    (hf : ∀ a, ∃ e, f a = .error e) : ∃ e, x >>= f = .error e := by
  cases x with
  | error e => exact ⟨e, rfl⟩
  | ok a => exact hf a

/-- A number is no node, whatever it is worth. -/
theorem nodeWith_number {n : List Char} (hn : Number n) (inner : Option (Scanner Node))
    (r : List Char) : ∃ fault, nodeWith inner (n ++ r) = .error fault := by
  rcases hn.head with ⟨c, t, rfl, hc⟩
  rw [nodeWith, List.cons_append, skipSpace_cons (isSpace_of_begins hc)]
  split
  · exact ⟨_, rfl⟩
  iterate 6
    rename_i heq
    exact absurd (List.cons.inj heq).1 (ne_of_begins hc (by decide))
  · rename_i heq
    rw [← (List.cons.inj heq).1, if_pos hc]
    exact exists_error_bind _ fun _ => ⟨_, rfl⟩

/-- A closing brace ends what is left of an object. -/
theorem members_end {b : List Char} (hb : Blanks b) (scan : Scanner Node) (bound : Nat)
    (acc : Partial) (r : List Char) :
    members scan (bound + 1) acc (b ++ '}' :: r) = .ok ((acc.map Node.dir).getD .denied, r) := by
  rw [members, skipSpace_blanks hb, skipSpace_cons rfl]
  rfl

/-- A comma goes on to a further member. -/
theorem members_comma {b b' : List Char} (hb : Blanks b) (hb' : Blanks b') (scan : Scanner Node)
    (bound : Nat) (acc : Partial) (s : List Char) :
    members scan (bound + 1) acc (b ++ ',' :: (b' ++ '"' :: s)) =
      member scan acc s >>= fun x => members scan bound x.1 x.2 := by
  have hquote : skipSpace ('"' :: s) = '"' :: s := skipSpace_cons rfl s
  rw [members, skipSpace_blanks hb, skipSpace_cons rfl]
  simp only [skipSpace_blanks hb', hquote]
  rfl

/-- Where an object may be opened, a brace opens one. -/
theorem node_brace (depth : Nat) (s : List Char) :
    node (depth + 1) ('{' :: s) = object (node depth) s := rfl

theorem object_end {b : List Char} (hb : Blanks b) (scan : Scanner Node) (r : List Char) :
    object scan (b ++ '}' :: r) = .ok (.dir .empty, r) := by
  rw [object, skipSpace_blanks hb, skipSpace_cons rfl]
  rfl

theorem object_first {b : List Char} (hb : Blanks b) (scan : Scanner Node) (s : List Char) :
    object scan (b ++ '"' :: s) =
      member scan (some .empty) s >>= fun x => members scan (x.2.length + 1) x.1 x.2 := by
  rw [object, skipSpace_blanks hb, skipSpace_cons rfl]
  rfl

mutual

/-- A value is read as what it stands for. -/
theorem Json.reads : (j : Json) → {v : List Char} → j.Spelled v → (depth : Nat) →
    Reads (node depth) depth j v
  | .null, _, .null hb, depth => by
      refine reads_leaf (fun n => Json.means_null) rfl fun r => ?_
      rw [List.append_assoc, node_blanks hb]
      cases depth <;> rfl
  | .bool true, _, .yes hb, depth => by
      refine reads_leaf (fun n => Json.means_bool) rfl fun r => ?_
      rw [List.append_assoc, node_blanks hb]
      cases depth <;> rfl
  | .bool false, _, .no hb, depth => by
      refine reads_leaf (fun n => Json.means_bool) rfl fun r => ?_
      rw [List.append_assoc, node_blanks hb]
      cases depth <;> rfl
  | .number n, _, .number hb hn, depth => by
      refine reads_refused (fun n h => by cases h) fun r hr => ?_
      rw [List.append_assoc, node_blanks hb]
      cases depth with
      | zero => exact nodeWith_number hn _ r
      | succ depth => exact nodeWith_number hn _ r
  | .string raw, _, .string hb hraw, depth => by
      refine reads_refused (fun n h => by cases h) fun r hr => ?_
      rw [List.append_assoc, node_blanks hb]
      cases depth with
      | zero => exact exists_error_bind (literal _) fun _ => ⟨_, rfl⟩
      | succ depth => exact exists_error_bind (literal _) fun _ => ⟨_, rfl⟩
  | .array items, _, .array hb h, depth => by
      refine reads_refused (fun n h => by cases h) fun r hr => ?_
      rw [List.append_assoc, node_blanks hb]
      cases depth with
      | zero => exact ⟨_, rfl⟩
      | succ depth => exact ⟨_, rfl⟩
  | .object ms, _, .object hb h, 0 => by
      -- No object may be opened, and the document needs one.
      intro r _ n r'
      rw [List.append_assoc, node_blanks hb]
      constructor
      · intro he
        cases he
      · rintro ⟨_, hdepth, _⟩
        exact absurd hdepth (Nat.not_succ_le_zero _)
  | .object .nil, _, .object hb (.nil hb'), depth + 1 => by
      intro r _ n r'
      rw [← and_assoc, Json.means_object, Members.yields_nil, List.append_assoc, node_blanks hb,
        List.cons_append, node_brace, List.append_assoc, List.singleton_append, object_end hb',
        Except.ok.injEq, Prod.mk.injEq]
      exact and_congr eq_comm eq_comm
  | .object (.cons key value rest), _,
      .object hb (@Members.Spelled.cons _ _ _ _ _ b k b' v cs .first hb' hkey hb'' hvalue hrest),
      depth + 1 => by
      intro r _ n r'
      -- The reader takes its bound from what is left, and that is more than the members left.
      have hafter (acc : Partial) := rest.reads hrest depth ((cs ++ r).length + 1)
        (by rw [List.length_append]; omega) r acc
      have hmember := member_spelled hkey hb'' hvalue (value.reads hvalue depth) (hrest.stops r)
        (fun acc s => members (node depth) (s.length + 1) acc s) hafter (some .empty) n r'
      rw [← and_assoc, Json.means_object, List.append_assoc, node_blanks hb, ← hmember,
        ← object_first hb', List.cons_append, node_brace]
      simp only [List.append_assoc, List.cons_append, List.nil_append]

/-- What is left of an object is read as what it comes to. -/
theorem Members.reads : (ms : Members) → {cs : List Char} → ms.Spelled false cs →
    (depth bound : Nat) → cs.length < bound → (r : List Char) → (acc : Partial) → (n : Node) →
    (r' : List Char) → (members (node depth) bound acc (cs ++ r) = .ok (n, r') ↔
      ms.Yields depth acc n ∧ r' = r)
  | _, _, _, _, 0, hbound, _, _, _, _ => absurd hbound (Nat.not_lt_zero _)
  | .nil, _, .nil hb, depth, bound + 1, _, r, acc, n, r' => by
      rw [List.append_assoc, List.singleton_append, members_end hb, Members.yields_nil,
        Except.ok.injEq, Prod.mk.injEq]
      exact and_congr eq_comm eq_comm
  | .cons key value rest, _, @Members.Spelled.cons _ _ _ _ _ b k b' v cs (.next hsep) hb hkey hb'
      hvalue hrest, depth, bound + 1, hbound, r, acc, n, r' => by
      have hlength : cs.length < bound := by
        simp only [List.length_append, List.length_cons] at hbound
        omega
      have hafter := rest.reads hrest depth bound hlength r
      have hmember := member_spelled hkey hb' hvalue (value.reads hvalue depth) (hrest.stops r)
        (members (node depth) bound) hafter acc n r'
      rw [← hmember, ← members_comma hsep hb]
      simp only [List.append_assoc, List.cons_append, List.nil_append]

end

/-- A document is read as the node it stands for, if it does not nest too deep. -/
theorem readNode_iff {j : Json} {text : String} (h : j.Document text) {n : Node} :
    readNode text = .ok n ↔ j.Means n ∧ j.depth ≤ maxDepth := by
  rcases h with ⟨v, b, hv, hb, htext⟩
  have hreads := j.reads hv maxDepth b (stops_end hb)
  have hend : skipSpace b = [] := by
    rw [← List.append_nil b, skipSpace_blanks hb]
    rfl
  rw [readNode, htext, bind_eq_ok]
  constructor
  · rintro ⟨⟨found, rest⟩, hscan, h⟩
    rcases (hreads found rest).1 hscan with ⟨hmeans, hdepth, rfl⟩
    simp only [hend, List.isEmpty_nil, if_true] at h
    cases h
    exact ⟨hmeans, hdepth⟩
  · rintro ⟨hmeans, hdepth⟩
    refine ⟨(n, b), (hreads n b).2 ⟨hmeans, hdepth, rfl⟩, ?_⟩
    simp only [hend, List.isEmpty_nil, if_true]
    rfl

theorem read_iff {j : Json} {text : String} (h : j.Document text) (root : Dir) :
    read text = .ok root ↔ j.Means (.dir root) ∧ j.depth ≤ 127 := by
  rw [← maxDepth, ← readNode_iff h, read]
  split
  · rename_i found hnode
    rw [hnode, Except.ok.injEq, Except.ok.injEq, Node.dir.injEq]
  · rename_i hnode
    rw [hnode]
    exact ⟨fun he => (by cases he), fun he => (by cases he)⟩
  · rename_i hnode
    rw [hnode]
    exact ⟨fun he => (by cases he), fun he => (by cases he)⟩
  · rename_i hnode
    rw [hnode]
    exact ⟨fun he => (by cases he), fun he => (by cases he)⟩

/-- A document is read as the tree it stands for, if it stands for one and nests at most 127 deep
    where it is decoded; else it is refused. So two documents that differ only in what follows a
    reserved key in its object are read alike. -/
theorem read_document {j : Json} {text : String} (h : j.Document text) :
    (∀ root, read text = .ok root ↔ j.Means (.dir root) ∧ j.depth ≤ 127) ∧
      ∀ (j' : Json) (text' : String), j'.Document text' → j'.cut = j.cut →
        ∀ root, read text' = .ok root ↔ read text = .ok root := by
  refine ⟨read_iff h, fun j' text' h' hcut root => ?_⟩
  rw [read_iff h, read_iff h', ← j'.means_cut, ← j.means_cut, hcut, ← j'.depth_cut, ← j.depth_cut,
    hcut]

/-- A name that comes twice, once with an escape, and the second time for an object that is denied:
    before a number that no double holds and a member with a bracket in one text, before nothing in
    the other. -/
theorem read_document_denied :
    let denied := Members.cons ":" (.number "1e999".toList) (.cons "b" (.array .nil) .nil)
    let j := Json.object (.cons "a" (.bool true) (.cons "a" (.object denied) .nil))
    let text := "\x7b\"\\u0061\":true,\"a\":\x7b\":\":1e999,\"b\":[]\x7d\x7d"
    let text' := "\x7b\"a\":true, \"a\":\x7b\":\":null\x7d\x7d"
    let root := Dir.entry "a" .denied .empty
    j.Document text ∧ read text = .ok root ∧ read text' = .ok root := by
  intro denied j text text' root
  have hb : Blanks [] := fun _ h => by cases h
  have hb' : Blanks [' '] := fun c h => by rw [List.mem_singleton.1 h]; rfl
  have ha : Key "a".toList "a".toList := key_plain (List.forall_mem_singleton.2 (by decide))
  have hc : Key ":".toList ":".toList := key_plain (List.forall_mem_singleton.2 (by decide))
  have hb₁ : Key "b".toList "b".toList := key_plain (List.forall_mem_singleton.2 (by decide))
  have hescaped : Key "a".toList ("\\u0061".toList ++ []) :=
    .cons (@Spelling.unit 'a' ['0', '0', '6', '1'] ⟨0, 0, 6, 1, by decide, by decide⟩) .nil
  have hnumber : Number ([] ++ (['1'] ++ ([] ++ 'e' :: ([] ++ ['9', '9', '9'])))) :=
    .intro (by decide) ⟨⟨by decide, List.all_eq_true.1 rfl⟩, by decide⟩ .none
      (.some (by decide) (by decide) ⟨by decide, List.all_eq_true.1 rfl⟩)
  have hj : j.Document text :=
    ⟨_, [], .object hb (.cons .first hb hescaped hb (.yes hb) (.cons (.next hb) hb ha hb
      (.object hb (.cons .first hb hc hb (.number hb hnumber) (.cons (.next hb) hb hb₁ hb
        (.array hb (.nil hb)) (.nil hb)))) (.nil hb))), hb, by decide⟩
  have hj' : (Json.object (.cons "a" (.bool true) (.cons "a" (.object (.cons ":" .null .nil))
      .nil))).Document text' :=
    ⟨_, [], .object hb (.cons .first hb ha hb (.yes hb) (.cons (.next hb) hb' ha hb
      (.object hb (.cons .first hb hc hb (.null hb) (.nil hb))) (.nil hb))), hb, by decide⟩
  have hmeans : j.Means (.dir root) :=
    .dir (.cons (by decide) (.bool true) (.cons (by decide) (.denied (.here _ _)) .nil))
      (gathered_iff.2 (by decide))
  have hread := (read_document hj).1 root |>.2 ⟨hmeans, by decide⟩
  exact ⟨hj, hread, ((read_document hj).2 _ text' hj' rfl root).2 hread⟩

end TreeShell.Snapshot
