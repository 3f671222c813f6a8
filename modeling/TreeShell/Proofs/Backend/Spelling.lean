import TreeShell.Proofs.Backend.Listing
import TreeShell.Proofs.Backend.StorageRoundTrip
import TreeShell.Proofs.Path.Printed
import TreeShell.Proofs.Tree.Reached

/-!
# Two Spellings of a Path

Object storage is listed by raw names and asked for contents by shown ones. The prefix that is
listed is made of the raw names that lead to it, flags included, while the path to a file in the
tree has lost them. So what is listed has two spellings, and a provider that stores contents under
the names it lists finds them only where the two are the same.

They are the same exactly if no flag was written, neither on the item nor on a folder above it
(`joined_names_eq_iff`): cutting a name at its first colon leaves it alone if it has none, and
leaves nothing in which a colon could stand.

Both spellings are joined from the same entries. For the raw one this needs that the way to the item
begins with a name. It does after a successful build, because a folder without a name in the root
has the root's own prefix and would be listed without end.

## Theorems

* `StorageEntry.name_eq_raw_iff`: A name is shown as it is stored if it has no flag.
* `StorageEntry.joined_names_eq_iff`: When both spellings are the same.
* `StorageEntry.exists_entries_of_leads`: The entries that lead to an item.
* `Content.unfoldsFrom_of_built`: A build that succeeds does what the recursion says.
* `Content.follow_of_listed`: After that each object that was listed is in the tree.
* `Content.shown_eq_listed_iff`: When its path in the tree is the name it was listed under.
-/

namespace TreeShell

namespace StorageEntry

/-- What is shown of a name has no colon. -/
theorem colon_notMem_name (e : StorageEntry) : ':' ∉ e.name.toList := by
  rw [name]
  cases hsplit : Text.split ':' e.raw with
  | nil => exact absurd hsplit (Text.split_ne_nil _ _)
  | cons first rest =>
      have hmem : first ∈ Text.split ':' e.raw := by
        rw [hsplit]
        exact List.mem_cons_self
      exact Text.not_mem_of_mem_split hmem

/-- A name is shown as it is stored exactly if it has no flag. -/
theorem name_eq_raw_iff (e : StorageEntry) : e.name = e.raw ↔ ':' ∉ e.raw.toList := by
  constructor
  · intro h
    rw [← h]
    exact e.colon_notMem_name
  · intro h
    rw [name, Text.split_of_notMem h]
    rfl

/-- The shown spelling of a path is the stored one exactly if nothing on the way has a flag. -/
theorem joined_names_eq_iff (way : List StorageEntry) :
    Path.joined (way.map name) = Path.joined (way.map raw) ↔
      ':' ∉ (Path.joined (way.map raw)).toList := by
  have hcolon : ∀ names : List String, ':' ∈ (Path.joined names).toList ↔
      ∃ name ∈ names, ':' ∈ name.toList := Path.mem_joined_iff (by decide)
  constructor
  · intro h
    rw [← h, hcolon]
    rintro ⟨shown, hmem, hin⟩
    rcases List.mem_map.1 hmem with ⟨e, _, rfl⟩
    exact e.colon_notMem_name hin
  · intro h
    have hnames : way.map name = way.map raw := by
      refine List.map_congr_left fun e he => e.name_eq_raw_iff.2 fun hin => ?_
      exact h ((hcolon _).2 ⟨e.raw, List.mem_map_of_mem he, hin⟩)
    rw [hnames]

/-- An object is planted as a file with its mark. -/
theorem sprout_object {e : StorageEntry} (h : e.kind = .object) (under : String) :
    e.sprout under = .leaf e.name (.file e.readable) := by
  rw [sprout, node, h]

section Way

variable {list : String → Except Fault (List StorageEntry)}

/-- The entries that lead from one prefix to another: their shown names are the way, and their raw
    names make the prefix. -/
theorem exists_entries_of_leads {under last : String} {segments : List String}
    (h : Leads (level list) under segments last) :
    ∃ way : List StorageEntry, way.map name = segments ∧
      (way.map raw).foldl prefixBelow under = last := by
  induction h with
  | here => exact ⟨[], rfl, rfl⟩
  | step answer found onwards ih =>
      rcases levelOf_eq_ok_iff.1 answer with ⟨entries, _, rfl⟩
      rcases List.mem_map.1 found with ⟨e, _, he⟩
      rcases eq_of_sprout_eq_branch he with ⟨_, rfl, rfl⟩
      rcases ih with ⟨way, rfl, rfl⟩
      exact ⟨e :: way, rfl, rfl⟩

/-- The raw names that lead to an item are joined in the name under which it is listed, if no folder
    leads from the root to the root. -/
theorem exists_entries_of_listed (hroot : ∀ segments, Leads (level list) "" segments "" →
      segments = []) {under : String} {segments : List String}
    (h : Leads (level list) "" segments under) (e : StorageEntry) :
    ∃ way : List StorageEntry, way.map name = segments ++ [e.name] ∧
      Path.joined (way.map raw) = prefixBelow under e.raw := by
  cases h with
  | here => exact ⟨[e], rfl, String.intercalate_singleton⟩
  | @step _ next _ shown rest sprouts answer found onwards =>
      have hnext : next ≠ "" := by
        rintro rfl
        cases hroot [shown] (.step answer found .here)
      rcases levelOf_eq_ok_iff.1 answer with ⟨entries, _, rfl⟩
      rcases List.mem_map.1 found with ⟨first, _, hfirst⟩
      rcases eq_of_sprout_eq_branch hfirst with ⟨_, rfl, rfl⟩
      rcases exists_entries_of_leads onwards with ⟨way, rfl, rfl⟩
      refine ⟨first :: way ++ [e], by simp, ?_⟩
      -- The first name is not empty, so all further ones are joined to it.
      have hjoined := foldl_prefixBelow hnext ((way ++ [e]).map raw)
      rw [List.map_append, List.foldl_append] at hjoined
      have hraw : prefixBelow "" first.raw = first.raw := if_pos rfl
      simpa [hraw] using hjoined.symm

end Way

end StorageEntry

section Built

variable {c : Content} {list : String → Except Fault (List StorageEntry)}
  (hlist : ∀ past under, c.answer past (.listing under) = list under)
  (hnames : ∀ segments under, Leads (StorageEntry.level list) "" segments under →
    ∀ entries, list under = .ok entries → (entries.map StorageEntry.name).Nodup)

include hnames

theorem StorageEntry.distinctFrom_level : DistinctFrom (Gives (level list)) "" := by
  intro segments under hleads below answer
  rcases levelOf_eq_ok_iff.1 answer with ⟨entries, hentries, rfl⟩
  have hshown : Sprout.name ∘ sprout under = name := funext (name_sprout under)
  rw [List.map_map, hshown]
  exact hnames segments under hleads entries hentries

include hlist

/-- A build that succeeds does what the recursion over the prefixes says. -/
theorem Content.unfoldsFrom_of_built {traffic last : Traffic} {storage : Dir}
    (hbuilt : c.storageTree traffic = some (.ok storage, last)) :
    ∃ asked, UnfoldsFrom (StorageEntry.level list) "" asked (.ok storage) := by
  have hask := c.fst_levels hlist
  have hgives : ∀ under t below, (c.levels under t).1 = .ok below →
      Gives (StorageEntry.level list) under below := fun under t below hbelow =>
    (hask under t).symm.trans hbelow
  rcases exists_growsTo_of_grow hbuilt with ⟨_, hrun⟩
  rcases unfoldsFromBy_of_growsTo hgives (StorageEntry.distinctFrom_level hnames) hrun with
    ⟨said, _, h, hsaid⟩
  have hsame : said = told (StorageEntry.level list) (said.map Prod.fst) := hsaid.eq_told hask
  rw [hsame] at h
  exact ⟨_, h⟩

/-- After that every object that was listed is in the tree, under its shown name. -/
theorem Content.follow_of_listed {traffic last : Traffic} {storage : Dir}
    (hbuilt : c.storageTree traffic = some (.ok storage, last)) {segments : List String}
    {under : String}
    (hleads : Leads (StorageEntry.level list) "" segments under) {entries : List StorageEntry}
    (hentries : list under = .ok entries) {e : StorageEntry} (hmem : e ∈ entries)
    (hkind : e.kind = .object) :
    storage.follow (segments ++ [e.name]) = some (.file e.readable) := by
  rcases Content.unfoldsFrom_of_built hlist hnames hbuilt with ⟨asked, h⟩
  have answer : StorageEntry.level list under = .ok (entries.map (StorageEntry.sprout under)) :=
    levelOf_eq_ok_iff.2 ⟨entries, hentries, rfl⟩
  exact h.follow_of_leaf hleads (StorageEntry.distinctFrom_level hnames) answer
    (List.mem_map.2 ⟨e, hmem, StorageEntry.sprout_object hkind under⟩)

/-- And its shown path is the name it was listed under exactly if that has no flag in it. -/
theorem Content.shown_eq_listed_iff {traffic last : Traffic} {storage : Dir}
    (hbuilt : c.storageTree traffic = some (.ok storage, last)) {segments : List String}
    {under : String}
    (hleads : Leads (StorageEntry.level list) "" segments under) (e : StorageEntry) :
    Path.joined (segments ++ [e.name]) = StorageEntry.prefixBelow under e.raw ↔
      ':' ∉ (StorageEntry.prefixBelow under e.raw).toList := by
  rcases Content.unfoldsFrom_of_built hlist hnames hbuilt with ⟨asked, h⟩
  have hroot : ∀ segments, Leads (StorageEntry.level list) "" segments "" → segments = [] :=
    fun _ => h.segments_eq_nil (StorageEntry.distinctFrom_level hnames)
  rcases StorageEntry.exists_entries_of_listed hroot hleads e with ⟨way, hnames, hraws⟩
  rw [← hnames, ← hraws]
  exact StorageEntry.joined_names_eq_iff way

end Built

end TreeShell
