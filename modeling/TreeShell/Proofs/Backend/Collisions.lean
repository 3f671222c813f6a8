import TreeShell.Backend.Memory
import TreeShell.Proofs.Backend.Listing
import TreeShell.Proofs.Tree.Overwriting

/-!
# Entries That Are Shown under One Name

The flag is no part of the name that is shown, so two entries of a listing may be shown as one, and
two folders may have their entries in one directory. Object storage may also hold a folder and an
object of one name. The tree has room for one node under a name, and the entry that is written last
is the one it has, with the kind and the access of that entry alone. Whatever was written before it
is not in the tree, and neither is what was below it.

Which entry is written last follows from the listings (`Stays`), though the folders of a listing are
asked for from the last to the first. So of two entries with one name in one listing the later one
stays, but of two in the listings of two folders with one name it is that of the earlier folder.

Nothing is lost without such a collision. It is enough that no listing that was asked for has two
entries of one name.

## Theorems

* `Content.storageTree_stays`: What a build from listings has at each path.
* `MemoryContent.storageTree_stays_merged`, `MemoryContent.storageTree_overwrites`: Folders that
  share a directory, with and without loss.
-/

namespace TreeShell

/-- An entry is planted with the kind and the access that its raw name gives it. -/
theorem StorageEntry.bare_node_sprout (under : String) (e : StorageEntry) :
    (e.sprout under).node.bare = e.node := by
  rcases e with ⟨_ | _, raw⟩
  · cases hreadable : readable ⟨.folder, raw⟩ <;>
      simp [sprout, StorageEntry.node, hreadable, Sprout.node, Node.bare]
  · simp [sprout, StorageEntry.node, Sprout.node, Node.bare]

namespace Content

/-- What a build from listings has at each path, for any listings. A node stands there exactly if
    some entry stays there, and it has the kind and the access of that entry. Each request is for
    the entries of one place, and if no listing requested has two entries of one name, all of them
    are at their place in the tree. -/
theorem storageTree_stays {c : Content} {list : String → Except Fault (List StorageEntry)}
    (hlist : ∀ past under, c.answer past (.listing under) = list under) {traffic last : Traffic}
    {storage : Dir} (hbuilt : c.storageTree traffic = some (.ok storage, last)) :
    (∀ path node, path ≠ [] → ((storage.nodeAt? path).map Node.bare = some node ↔
      ∃ under entries e, list under = .ok entries ∧ e ∈ entries ∧
        Stays (StorageEntry.level list) "" path under (e.sprout under) ∧ e.node = node)) ∧
    ∃ asked : List (String × List String),
      last.requests = traffic.requests ++ asked.map (fun place => .listing place.1) ∧
      (∀ place ∈ asked, Leads (StorageEntry.level list) "" place.2 place.1 ∧
        ∃ entries, list place.1 = .ok entries) ∧
      ((∀ place ∈ asked, ∀ entries, list place.1 = .ok entries →
          (entries.map StorageEntry.name).Nodup) →
        ∀ place ∈ asked, ∀ entries, list place.1 = .ok entries → ∀ e ∈ entries,
          (storage.nodeAt? (place.2 ++ [e.name])).map Node.bare = some e.node) := by
  have hask := c.fst_levels hlist
  have hclosed : ∀ under sprouts, StorageEntry.level list under = .ok sprouts →
      Sprout.Closed sprouts := by
    intro under sprouts hsprouts
    rcases levelOf_eq_ok_iff.1 hsprouts with ⟨entries, _, rfl⟩
    exact Sprout.closed_map (StorageEntry.sprout_ne_leaf_dir under) entries
  obtain ⟨keys, hrun, hrequests⟩ := exists_growsTo_of_storageTree hbuilt
  have hstands (path : List String) (node : Node) (hne : path ≠ []) :=
    bare_nodeAt?_grow_iff hask hclosed hrun hne node
  obtain ⟨asked, rfl, hasked, hnodup⟩ := exists_asked_stays hask hrun
  refine ⟨fun path node hne => (hstands path node hne).trans ⟨?_, ?_⟩, asked, ?_, fun place hmem =>
    ?_, fun hdistinct place hmem entries hentries e he => ?_⟩
  · rintro ⟨under, sprout, hstays, rfl⟩
    obtain ⟨segments, sprouts, _, _, answer, hmem⟩ := hstays.leads
    rcases levelOf_eq_ok_iff.1 answer with ⟨entries, hentries, rfl⟩
    rcases List.mem_map.1 hmem with ⟨e, he, rfl⟩
    exact ⟨under, entries, e, hentries, he, hstays, (e.bare_node_sprout under).symm⟩
  · rintro ⟨under, entries, e, hentries, he, hstays, rfl⟩
    exact ⟨under, _, hstays, e.bare_node_sprout under⟩
  · rw [hrequests, List.map_map]
    rfl
  · exact ⟨(hasked place hmem).1, levelOf_isOk_iff.1 (hasked place hmem).2⟩
  · have hlevels : ∀ p ∈ asked, ∀ sprouts, StorageEntry.level list p.1 = .ok sprouts →
        (sprouts.map Sprout.name).Nodup := by
      intro p hp sprouts answer
      rcases levelOf_eq_ok_iff.1 answer with ⟨entries, hentries, rfl⟩
      rw [List.map_map]
      simpa only [Function.comp_def, StorageEntry.name_sprout] using hdistinct p hp entries hentries
    have hstays := hnodup hlevels place hmem _ (levelOf_eq_ok_iff.2 ⟨entries, hentries, rfl⟩)
      (e.sprout place.1) (List.mem_map_of_mem he)
    rw [StorageEntry.name_sprout] at hstays
    refine (hstands _ _ (List.append_ne_nil_of_right_ne_nil _ (List.cons_ne_nil _ _))).2 ?_
    exact ⟨_, _, hstays, e.bare_node_sprout place.1⟩

end Content

namespace MemoryContent

/-- Two folders shown as `p` with an object `x` in each, and two objects shown as `n`. -/
def mergedStore : MemoryContent where
  listings := [("", [⟨.folder, "p"⟩, ⟨.folder, "p:1"⟩, ⟨.object, "n"⟩, ⟨.object, "n:"⟩]),
    ("p", [⟨.object, "x"⟩]), ("p:1", [⟨.object, "x:"⟩, ⟨.folder, "y:"⟩])]

/-- Both folders are in the one directory, with the `x` of the first. The `y` of the second is there
    too, since the first has none. -/
theorem storageTree_stays_merged :
    let c := mergedStore.provider
    let list (under : String) := get "listing" mergedStore.listings under
    let p := Dir.ofList [("x", .file true), ("y", .denied)]
    let storage := Dir.ofList [("p", .dir p), ("n", .file false)]
    (∀ past under, c.answer past (.listing under) = list under) ∧
      (∃ last, c.storageTree {} = some (.ok storage, last)) ∧
      Stays (StorageEntry.level list) "" ["p", "y"] "p:1" (.leaf "y" .denied) ∧
      (storage.nodeAt? ["p", "y"]).map Node.bare = some .denied ∧
      ∃ under entries e, list under = .ok entries ∧ e ∈ entries ∧
        Stays (StorageEntry.level list) "" ["p", "x"] under (e.sprout under) ∧
        e.node = .file true := by
  intro c list p storage
  obtain ⟨last, hbuilt⟩ : ∃ last, c.storageTree {} = some (.ok storage, last) :=
    ⟨_, (growsTo_of_growFor (n := 3) rfl).grow_eq⟩
  have hlist : ∀ past under, c.answer past (.listing under) = list under := fun _ _ => rfl
  have hstands := (Content.storageTree_stays hlist hbuilt).1
  have hroot : StorageEntry.level list "" = .ok ([.branch "p" "p"] ++
      .branch "p" "p:1" :: [.leaf "n" (.file true), .leaf "n" (.file false)]) := by rfl
  have hfirst : StorageEntry.level list "p" = .ok [.leaf "x" (.file true)] := by rfl
  have hsecond : StorageEntry.level list "p:1" =
      .ok ([.leaf "x" (.file false)] ++ .leaf "y" .denied :: []) := by rfl
  have hentry : Stays (StorageEntry.level list) "p:1" ["y"] "p:1" (.leaf "y" .denied) :=
    .here hsecond ⟨_, _, rfl, by decide⟩
  have hlast : (Sprout.branch "p" "p:1").Outlasts ([.branch "p" "p"] ++
      .branch "p" "p:1" :: [.leaf "n" (.file true), .leaf "n" (.file false)]) :=
    ⟨_, _, rfl, by decide⟩
  have hstays : Stays (StorageEntry.level list) "" ["p", "y"] "p:1" (.leaf "y" .denied) := by
    refine .further hroot hlast (fun other hother sprouts answer => ?_) hentry
    obtain rfl : other = "p" := by simpa using hother
    cases hfirst.symm.trans answer
    decide
  refine ⟨hlist, ⟨last, hbuilt⟩, hstays, ?_, (hstands _ _ (List.cons_ne_nil _ _)).1 rfl⟩
  refine (hstands _ _ (List.cons_ne_nil _ _)).2 ⟨"p:1", _, ⟨.folder, "y:"⟩, rfl, ?_, hstays, rfl⟩
  exact List.mem_cons_of_mem _ List.mem_cons_self

/-- Two folders shown as `p`, and in each of them one shown as `a`. Only the later `p` has anything
    in its `a`. -/
def wipedStore : MemoryContent where
  listings := [("", [⟨.folder, "p"⟩, ⟨.folder, "p:1"⟩]), ("p", [⟨.folder, "a"⟩]),
    ("p:1", [⟨.folder, "a"⟩]), ("p:1/a", [⟨.object, "x"⟩]), ("p/a", [])]

/-- A denied folder and a readable one of the same name. -/
def liftedStore : MemoryContent where
  listings := [("", [⟨.folder, "docs:"⟩, ⟨.folder, "docs"⟩]), ("docs", [])]

/-- An object that was listed is written over from above and is not in the tree, and a folder that
    was listed as denied is shown as readable. -/
theorem storageTree_overwrites :
    (let c := wipedStore.provider
      let list (under : String) := get "listing" wipedStore.listings under
      let storage := Dir.ofList [("p", .dir (.ofList [("a", .dir .empty)]))]
      (∀ past under, c.answer past (.listing under) = list under) ∧
        (∃ last, c.storageTree {} = some (.ok storage, last) ∧ .listing "p:1/a" ∈ last.requests) ∧
        Leads (StorageEntry.level list) "" ["p", "a"] "p:1/a" ∧
        list "p:1/a" = .ok [⟨.object, "x"⟩] ∧
        StorageEntry.name ⟨.object, "x"⟩ = "x" ∧ storage.nodeAt? ["p", "a", "x"] = none) ∧
    (let c := liftedStore.provider
      let list (under : String) := get "listing" liftedStore.listings under
      let storage := Dir.ofList [("docs", .dir .empty)]
      (∀ past under, c.answer past (.listing under) = list under) ∧
        (∃ last, c.storageTree {} = some (.ok storage, last) ∧ .listing "" ∈ last.requests) ∧
        list "" = .ok [⟨.folder, "docs:"⟩, ⟨.folder, "docs"⟩] ∧
        StorageEntry.name ⟨.folder, "docs:"⟩ = "docs" ∧
        StorageEntry.node ⟨.folder, "docs:"⟩ = .denied ∧
        (storage.nodeAt? ["docs"]).map Node.bare = some (.dir .empty)) := by
  constructor
  · refine ⟨fun _ _ => rfl, ⟨_, (growsTo_of_growFor (n := 5) rfl).grow_eq, by decide⟩, ?_, rfl,
      by decide, rfl⟩
    have hroot : StorageEntry.level (fun under => get "listing" wipedStore.listings under) "" =
        .ok [.branch "p" "p", .branch "p" "p:1"] := by rfl
    have hsecond : StorageEntry.level (fun under => get "listing" wipedStore.listings under) "p:1" =
        .ok [.branch "a" "p:1/a"] := by rfl
    exact .step hroot (List.mem_cons_of_mem _ List.mem_cons_self)
      (.step hsecond List.mem_cons_self .here)
  · exact ⟨fun _ _ => rfl, ⟨_, (growsTo_of_growFor (n := 2) rfl).grow_eq, by decide⟩, rfl,
      by decide, by decide, rfl⟩

end MemoryContent

end TreeShell
