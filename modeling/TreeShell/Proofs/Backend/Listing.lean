import TreeShell.Backend.Content
import TreeShell.Proofs.Tree.Grown

/-!
# Building from Listings

The tree in object storage is what its prefixes say, one inside the other: the directory under a
prefix has the entries of its listing, and in the place of each readable folder the directory under
the folder's own prefix. The build comes to exactly that, and it asks for nothing that does not end
up in the tree. What a provider would answer about any other prefix makes no difference, which is
why the provider is only asked to agree with the listings along the run.

A denied folder is a leaf here. Its prefix is never formed, so it is neither asked for nor counted.

## Main definitions

* `StorageEntry.level`: A listing as a level to grow from.
* `Content.levels`: A provider as something to grow a tree from.
* `Content.Follows`: Asked for prefixes one after another, a provider answers as listings say.

## Theorems

* `Content.storageTree_unfolds`: The build is the recursion over the prefixes.
-/

namespace TreeShell

namespace StorageEntry

/-- What a listing gives to grow from. -/
def level (list : String → Except Fault (List StorageEntry)) :
    String → Except Fault (List (Sprout String)) :=
  levelOf list sprout

theorem name_sprout (under : String) (e : StorageEntry) : (e.sprout under).name = e.name := by
  unfold sprout
  split <;> rfl

/-- Only denied folders and objects are planted as they are. -/
theorem sprout_ne_leaf_dir (under : String) (e : StorageEntry) (name : String) (entries : Dir) :
    e.sprout under ≠ .leaf name (.dir entries) := by
  unfold sprout
  split
  · nofun
  · rename_i hother
    intro h
    have hnode : e.node = .dir entries := (Sprout.leaf.inj h).2
    unfold node at hnode
    split at hnode
    · exact hother ‹_› ‹_›
    · cases hnode
    · cases hnode

/-- What there is to ask for in a listing are its folders, each under its own prefix. -/
theorem eq_of_sprout_eq_branch {under shown child : String} {e : StorageEntry}
    (h : e.sprout under = .branch shown child) :
    e.kind = .folder ∧ e.name = shown ∧ prefixBelow under e.raw = child := by
  unfold sprout at h
  split at h
  · rename_i hkind _
    exact ⟨hkind, Sprout.branch.inj h⟩
  · cases h

end StorageEntry

namespace Content

/-- A provider as something to grow a tree from. -/
def levels (c : Content) (under : String) : Asking Traffic (List (Sprout String)) := fun traffic =>
  ((c.ask (.listing under) traffic).1.map (List.map (StorageEntry.sprout under)),
    (c.ask (.listing under) traffic).2)

theorem storageTree_eq_grow (c : Content) (traffic : Traffic) :
    c.storageTree traffic = grow c.levels [("", [])] .empty traffic := rfl

/-- Asked for a level, it records the request. -/
theorem requests_of_levels {c : Content} {under : String} {traffic next : Traffic}
    {answer : Except Fault (List (Sprout String))} (h : c.levels under traffic = (answer, next)) :
    next.requests = traffic.requests ++ [.listing under] := by
  rw [← (Prod.mk.inj h).2, ask]

/-- Each request of a build is recorded. -/
theorem requests_of_growsTo {c : Content} {pending : List (String × List String)} {tree : Dir}
    {traffic last : Traffic} {asked : List String} {result : Except Fault Dir}
    (h : GrowsTo c.levels pending tree traffic asked result last) :
    last.requests = traffic.requests ++ asked.map .listing := by
  induction h with
  | done => exact (List.append_nil _).symm
  | refused answer => exact requests_of_levels answer
  | planted answer _ _ ih =>
      rw [ih, requests_of_levels answer, List.append_assoc]
      rfl
  | dropped answer _ _ ih =>
      rw [ih, requests_of_levels answer, List.append_assoc]
      rfl

/-- A build that ends has a run. -/
theorem exists_growsTo_of_storageTree {c : Content} {traffic last : Traffic}
    {result : Except Fault Dir} (h : c.storageTree traffic = some (result, last)) :
    ∃ asked, GrowsTo c.levels [("", [])] .empty traffic asked result last ∧
      last.requests = traffic.requests ++ asked.map .listing := by
  rcases exists_growsTo_of_grow h with ⟨asked, hgrows⟩
  exact ⟨asked, hgrows, requests_of_growsTo hgrows⟩

/-- What the provider gives to grow from, where it always answers as `list` says. -/
theorem fst_levels {c : Content} {list : String → Except Fault (List StorageEntry)}
    (hlist : ∀ past under, c.answer past (.listing under) = list under) (under : String)
    (traffic : Traffic) : (c.levels under traffic).1 = StorageEntry.level list under := by
  rw [levels, ask, hlist]
  rfl

/-- After the requests `past` the provider is asked for the prefixes one after another, and it
    answers as `list` says. -/
def Follows (c : Content) (list : String → Except Fault (List StorageEntry)) :
    List Request → List String → Prop
  | _, [] => True
  | past, under :: later =>
    c.answer past (.listing under) = list under ∧ c.Follows list (past ++ [.listing under]) later

/-- One of those requests after another is what the build makes of it. -/
theorem Follows.answers {c : Content} {list : String → Except Fault (List StorageEntry)}
    {asked : List String} {traffic : Traffic} (h : c.Follows list traffic.requests asked) :
    ∃ last : Traffic, last.requests = traffic.requests ++ asked.map .listing ∧
      Answers c.levels traffic (told (StorageEntry.level list) asked) last := by
  induction asked generalizing traffic with
  | nil => exact ⟨traffic, (List.append_nil _).symm, .nil⟩
  | cons under later ih =>
      rcases @ih (c.ask (.listing under) traffic).2 h.2 with ⟨last, hlast, hrest⟩
      refine ⟨last, ?_, .cons ?_ hrest⟩
      · rw [hlast, ask, List.append_assoc]
        rfl
      · rw [levels, ask, h.1]
        rfl

/-- The build is the recursion over the prefixes, wherever that comes to an end. It fails where a
    prefix that can be reached is refused, and then with the first refusal; else it has asked once
    for each readable directory of the tree, by the prefix of that directory. -/
theorem storageTree_unfolds (list : String → Except Fault (List StorageEntry))
    (hfinite : Acc (fun under above => Child (StorageEntry.level list) above under) "") :
    ∃ asked result, UnfoldsFrom (StorageEntry.level list) "" asked result ∧
      ((∃ root, result = .ok root) ↔ ∀ segments under,
        Leads (StorageEntry.level list) "" segments under → ∃ entries, list under = .ok entries) ∧
      ((∀ under ∈ asked, ∀ entries, list under = .ok entries →
          (entries.map StorageEntry.name).Nodup) →
        (∀ root, result = .ok root → Covers (StorageEntry.level list) "" asked root) ∧
        (∀ fault, result = .error fault → RefusedLast (StorageEntry.level list) asked fault) ∧
        ∀ (c : Content) (traffic : Traffic), c.Follows list traffic.requests asked →
          ∃ last, c.storageTree traffic = some (result, last) ∧
            last.requests = traffic.requests ++ asked.map .listing) := by
  obtain ⟨asked, result, h, hok, hbuild⟩ :=
    exists_unfoldsFrom_levelOf StorageEntry.sprout_ne_leaf_dir hfinite
  refine ⟨asked, result, h, hok, fun hnames => ?_⟩
  simp only [StorageEntry.name_sprout] at hbuild
  obtain ⟨hcovers, hrefused, hgrow⟩ := hbuild hnames
  refine ⟨hcovers, hrefused, fun c traffic hfollows => ?_⟩
  rcases hfollows.answers with ⟨last, hlast, hanswers⟩
  exact ⟨last, hgrow _ traffic last hanswers, hlast⟩

/-- Listings of a storage with a folder of each kind. Nothing is listed below the denied one. -/
def sampleListing (under : String) : Except Fault (List StorageEntry) :=
  if under = "" then .ok [⟨.folder, "notes"⟩, ⟨.folder, "old:"⟩, ⟨.object, "key:"⟩]
  else if under = "notes" then .ok [⟨.object, "today"⟩]
  else .error (.provider "not listed")

/-- A provider that answers with those listings, whatever it was asked before. -/
def sample : Content where
  answer _
    | .listing under => sampleListing under
    | _ => .error (.provider "not found")
  delay _ _ := 0

theorem storageTree_unfolds_sample :
    Acc (fun under above => Child (StorageEntry.level sampleListing) above under) "" ∧
      ∃ last, sample.storageTree {} = some
        (.ok (.entry "notes" (.dir (.entry "today" (.file true) .empty))
          (.entry "old" .denied (.entry "key" (.file false) .empty))), last) ∧
      last.requests = [.listing "", .listing "notes"] := by
  have hroot : StorageEntry.level sampleListing "" =
      .ok [.branch "notes" "notes", .leaf "old" .denied, .leaf "key" (.file false)] := rfl
  have hnotes : StorageEntry.level sampleListing "notes" = .ok [.leaf "today" (.file true)] := rfl
  have hfinite :
      Acc (fun under above => Child (StorageEntry.level sampleListing) above under) "" := by
    refine .intro _ fun under => ?_
    rintro ⟨below, answer, name, found⟩
    cases hroot.symm.trans answer
    simp at found
    refine .intro _ fun next => ?_
    rintro ⟨below, answer, name, hnext⟩
    rw [found.2] at answer
    cases hnotes.symm.trans answer
    simp at hnext
  -- The recursion by hand: the folder is asked for once the later entries are done.
  have hunfolds : UnfoldsFrom (StorageEntry.level sampleListing) "" ["", "notes"] _ :=
    .listed hroot (.branch (.leaf (.leaf .nil _) _) hnotes (.leaf .nil _))
  obtain ⟨asked, result, h, -, hbuild⟩ := storageTree_unfolds sampleListing hfinite
  obtain ⟨rfl, rfl⟩ := hunfolds.unique h
  have hnames : ∀ under ∈ ["", "notes"], ∀ entries, sampleListing under = .ok entries →
      (entries.map StorageEntry.name).Nodup := by
    intro under hunder entries hentries
    rcases List.mem_pair.1 hunder with rfl | rfl
    · obtain rfl : [_, _, _] = entries := Except.ok.inj hentries
      decide
    · obtain rfl : [_] = entries := Except.ok.inj hentries
      decide
  have hbuilt := (hbuild hnames).2.2 sample {} ⟨rfl, rfl, trivial⟩
  exact ⟨hfinite, hbuilt⟩

end Content

end TreeShell
