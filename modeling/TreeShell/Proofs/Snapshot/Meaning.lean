import Mathlib.Data.List.Induction
import TreeShell.Proofs.Snapshot.Document
import TreeShell.Proofs.Tree.Folders

/-!
# What a Document Means

A document stands for a node of the tree or for none. The rules are given here without a reader. An
object is gone through from left to right, and the reserved key ends it: the object is a denied
directory then, and what comes after the key has no meaning to begin with. A value before it must
have one. So there are two relations for the members of an object, and no object satisfies both:
either they deny it, or they all have a name and a node.

Several members may have one name. The directory has each name once, where it came first, with the
node that came last (`Gathered`). That is what one gets by writing the members into an empty
directory in their order, but it says so without writing.

How deep a document nests is counted only where it is decoded. What follows the reserved key counts
for nothing, and can be cut off (`Json.cut`).

## Main definitions

* `Snapshot.Gathered`: Each name once and first, with the node that came last.
* `Json.Means`, `Members.Deny`, `Members.Mean`: The node that a document stands for.
* `Json.depth`: How many decoded objects stand one inside the other.
* `Json.cut`: A document without what follows reserved keys.

## Theorems

* `gathered_iff`: The gathered directory is the one that writing makes.
* `Json.means_unique`: A document stands for one node at most.
* `Json.means_cut`, `Json.depth_cut`: What follows reserved keys makes no difference.
-/

namespace TreeShell.Snapshot

/-- `d` has the names of the entries, each where it came first, with the node that came last. -/
structure Gathered (entries : List (String × Node)) (d : Dir) : Prop where
  order : d.names = (entries.map Prod.fst).eraseDups
  last : ∀ name, d.find? name = entries.reverse.lookup name

mutual

/-- `j.Means n`: the document stands for the node. -/
inductive Json.Means : Json → Node → Prop where
  | null : Json.Means .null .denied
  | bool (value : Bool) : Json.Means (.bool value) (.file value)
  | denied {members : Members} (h : Members.Deny members) : Json.Means (.object members) .denied
  | dir {members : Members} {entries : List (String × Node)} {d : Dir}
      (h : Members.Mean members entries) (hd : Gathered entries d) :
      Json.Means (.object members) (.dir d)

/-- Some key is the reserved one, and every value before the first such key stands for a node. -/
inductive Members.Deny : Members → Prop where
  | here (value : Json) (rest : Members) : Members.Deny (.cons ":" value rest)
  | later {key : String} {value : Json} {node : Node} {rest : Members} (hkey : key ≠ ":")
      (hvalue : Json.Means value node) (hrest : Members.Deny rest) :
      Members.Deny (.cons key value rest)

/-- No key is the reserved one, and the values stand for the nodes of the entries. -/
inductive Members.Mean : Members → List (String × Node) → Prop where
  | nil : Members.Mean .nil []
  | cons {key : String} {value : Json} {node : Node} {rest : Members}
      {entries : List (String × Node)} (hkey : key ≠ ":") (hvalue : Json.Means value node)
      (hrest : Members.Mean rest entries) :
      Members.Mean (.cons key value rest) ((key, node) :: entries)

end

mutual

/-- How many objects stand one inside the other where they are decoded. Only objects are: any other
    value that could hold one is no node. -/
def Json.depth : Json → Nat
  | .object members => members.depth + 1
  | .null => 0
  | .bool _ => 0
  | .number _ => 0
  | .string _ => 0
  | .array _ => 0

/-- The same for the values before the reserved key. -/
def Members.depth : Members → Nat
  | .nil => 0
  | .cons key value rest => if key = ":" then 0 else max value.depth rest.depth

end

mutual

/-- A document without what follows a reserved key in its object. -/
def Json.cut : Json → Json
  | .object members => .object members.cut
  | .array items => .array items.cut
  | .null => .null
  | .bool value => .bool value
  | .number digits => .number digits
  | .string raw => .string raw

def Items.cut : Items → Items
  | .nil => .nil
  | .cons value rest => .cons value.cut rest.cut

def Members.cut : Members → Members
  | .nil => .nil
  | .cons key value rest =>
    if key = ":" then .cons key .null .nil else .cons key value.cut rest.cut

end

theorem Json.means_null {n : Node} : Json.null.Means n ↔ n = .denied := by
  constructor
  · intro h
    cases h
    rfl
  · rintro rfl
    exact .null

theorem Json.means_bool {value : Bool} {n : Node} :
    (Json.bool value).Means n ↔ n = .file value := by
  constructor
  · intro h
    cases h
    rfl
  · rintro rfl
    exact .bool value

/-- With distinct names a directory is known from its names and what is found under them. -/
theorem toList_eq_map_names {d : Dir} (h : d.names.Nodup) :
    d.toList = d.names.map fun name => (name, (d.find? name).getD .denied) := by
  rw [Dir.names, List.map_map]
  refine (List.map_id _).symm.trans (List.map_congr_left fun e he => ?_)
  have hfind : d.find? e.1 = some e.2 := (Dir.find?_eq_some_iff h).2 he
  rw [Function.comp_apply, hfind]
  rfl

/-- One more entry is one more write. -/
theorem ofList_concat (entries : List (String × Node)) (e : String × Node) :
    Dir.ofList (entries ++ [e]) = (Dir.ofList entries).insert e.1 e.2 :=
  List.foldl_concat _ _ _ _

theorem nodup_names_ofList (entries : List (String × Node)) : (Dir.ofList entries).names.Nodup := by
  induction entries using List.reverseRecOn with
  | nil => exact List.nodup_nil
  | append_singleton entries e ih =>
      rw [ofList_concat]
      exact Dir.nodup_names_insert ih e.1 e.2

/-- By induction on the last entry: it moves no name, and covers what was there before. -/
theorem gathered_ofList (entries : List (String × Node)) : Gathered entries (.ofList entries) := by
  induction entries using List.reverseRecOn with
  | nil => exact ⟨rfl, fun _ => rfl⟩
  | append_singleton entries e ih =>
      constructor
      · rw [ofList_concat, Dir.names_insert, ih.order, List.map_append, List.map_singleton,
          List.eraseDups_append]
        -- A name that is there already keeps its place, and a new one goes last.
        by_cases hm : e.1 ∈ entries.map Prod.fst
        · have hold : [e.1].removeAll (entries.map Prod.fst) = [] := by
            simp [List.removeAll, hm]
          rw [hold, if_pos (List.mem_eraseDups.2 hm)]
          exact (List.append_nil _).symm
        · have hnew : [e.1].removeAll (entries.map Prod.fst) = [e.1] := by
            simp [List.removeAll, hm]
          rw [hnew, if_neg (fun h => hm (List.mem_eraseDups.1 h))]
          rfl
      · intro name
        rw [ofList_concat, List.reverse_append, List.reverse_singleton, List.singleton_append,
          List.lookup_cons]
        by_cases hname : name = e.1
        · rw [hname, Dir.find?_insert_self, beq_self_eq_true]
        · rw [Dir.find?_insert_of_ne hname, ih.last, beq_false_of_ne hname]

/-- The gathered directory is the one that writing the entries in their order makes. -/
theorem gathered_iff {entries : List (String × Node)} {d : Dir} :
    Gathered entries d ↔ d = .ofList entries := by
  constructor
  · intro h
    have hmade := gathered_ofList entries
    have hnodup := nodup_names_ofList entries
    have hnames : d.names = (Dir.ofList entries).names := h.order.trans hmade.order.symm
    have hfind : ∀ name, d.find? name = (Dir.ofList entries).find? name := fun name =>
      (h.last name).trans (hmade.last name).symm
    -- The names and what is found under them are all there is to a directory.
    apply Dir.toList_injective
    rw [toList_eq_map_names (hnames ▸ hnodup), toList_eq_map_names hnodup, hnames]
    simp only [hfind]
  · rintro rfl
    exact gathered_ofList entries

/-- An object that is denied is no readable directory. -/
theorem Members.not_mean_of_deny : (members : Members) → members.Deny →
    (entries : List (String × Node)) → ¬ members.Mean entries
  | .cons _ _ _, .here _ _, _, .cons hkey _ _ => hkey rfl
  | .cons _ _ rest, .later _ _ hrest, _, .cons _ _ hmean => rest.not_mean_of_deny hrest _ hmean

mutual

/-- A document stands for one node at most. -/
theorem Json.means_unique : (j : Json) → {n n' : Node} → j.Means n → j.Means n' → n = n'
  | .null, _, _, .null, .null => rfl
  | .bool _, _, _, .bool _, .bool _ => rfl
  | .object _, _, _, .denied _, .denied _ => rfl
  | .object members, _, _, .denied h, .dir h' _ => absurd h' (members.not_mean_of_deny h _)
  | .object members, _, _, .dir h _, .denied h' => absurd h (members.not_mean_of_deny h' _)
  | .object members, _, _, .dir h hd, .dir h' hd' => by
      rw [gathered_iff.1 hd, gathered_iff.1 hd', members.mean_unique h h']

theorem Members.mean_unique : (members : Members) → {entries entries' : List (String × Node)} →
    members.Mean entries → members.Mean entries' → entries = entries'
  | .nil, _, _, .nil, .nil => rfl
  | .cons _ value rest, _, _, .cons _ hvalue hrest, .cons _ hvalue' hrest' => by
      rw [value.means_unique hvalue hvalue', rest.mean_unique hrest hrest']

end

mutual

/-- What follows a reserved key makes no difference to what a document stands for. -/
theorem Json.means_cut : (j : Json) → (n : Node) → (j.cut.Means n ↔ j.Means n)
  | .object members, n => by
      rw [Json.cut]
      constructor
      · intro h
        cases h with
        | denied h => exact .denied (members.deny_cut.1 h)
        | dir h hd => exact .dir (members.mean_cut.1 h) hd
      · intro h
        cases h with
        | denied h => exact .denied (members.deny_cut.2 h)
        | dir h hd => exact .dir (members.mean_cut.2 h) hd
  | .array items, n => by
      rw [Json.cut]
      exact ⟨fun h => (by cases h), fun h => (by cases h)⟩
  | .null, _ => Iff.rfl
  | .bool _, _ => Iff.rfl
  | .number _, _ => Iff.rfl
  | .string _, _ => Iff.rfl

theorem Members.deny_cut : (members : Members) → (members.cut.Deny ↔ members.Deny)
  | .nil => Iff.rfl
  | .cons key value rest => by
      rw [Members.cut]
      by_cases hkey : key = ":"
      · rw [if_pos hkey, hkey]
        exact ⟨fun _ => .here value rest, fun _ => .here .null .nil⟩
      · rw [if_neg hkey]
        constructor
        · intro h
          cases h with
          | here => exact absurd rfl hkey
          | later _ hvalue hrest =>
              exact .later hkey ((value.means_cut _).1 hvalue) (rest.deny_cut.1 hrest)
        · intro h
          cases h with
          | here => exact absurd rfl hkey
          | later _ hvalue hrest =>
              exact .later hkey ((value.means_cut _).2 hvalue) (rest.deny_cut.2 hrest)

theorem Members.mean_cut : (members : Members) → {entries : List (String × Node)} →
    (members.cut.Mean entries ↔ members.Mean entries)
  | .nil, _ => Iff.rfl
  | .cons key value rest, entries => by
      rw [Members.cut]
      by_cases hkey : key = ":"
      · rw [if_pos hkey]
        constructor
        · intro h
          cases h with
          | cons hkey' => exact absurd hkey hkey'
        · intro h
          cases h with
          | cons hkey' => exact absurd hkey hkey'
      · rw [if_neg hkey]
        constructor
        · intro h
          cases h with
          | cons _ hvalue hrest =>
              exact .cons hkey ((value.means_cut _).1 hvalue) (rest.mean_cut.1 hrest)
        · intro h
          cases h with
          | cons _ hvalue hrest =>
              exact .cons hkey ((value.means_cut _).2 hvalue) (rest.mean_cut.2 hrest)

end

mutual

/-- Nor does it count for how deep a document nests. -/
theorem Json.depth_cut : (j : Json) → j.cut.depth = j.depth
  | .object members => congrArg (· + 1) members.depth_cut
  | .array _ => rfl
  | .null => rfl
  | .bool _ => rfl
  | .number _ => rfl
  | .string _ => rfl

theorem Members.depth_cut : (members : Members) → members.cut.depth = members.depth
  | .nil => rfl
  | .cons key value rest => by
      rw [Members.cut]
      by_cases hkey : key = ":"
      · simp only [if_pos hkey, Members.depth]
      · simp only [if_neg hkey, Members.depth, value.depth_cut, rest.depth_cut]

end

end TreeShell.Snapshot
