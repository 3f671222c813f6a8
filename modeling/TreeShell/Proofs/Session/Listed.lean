import TreeShell.Proofs.Backend.Spelling
import TreeShell.Proofs.Command.Words
import TreeShell.Proofs.Session.Fetch
import TreeShell.Proofs.Session.Rebuild
import TreeShell.Proofs.Tree.Grafted

/-!
# Asking for What Is Listed

The tree is grown from listings, and what stands in it is then asked for by its path. The two meet
in the provider: it has listed an object under some name, and is asked for the contents of some
path. A request for a listed object is never a request for anything else, since the path in the tree
decides it. But the provider has to know the object by its path, not by the name it was listed
under, for it is the path that it is asked for. The access flags of the object and of the folders
above it are gone from it.

So an object with a flag, or below a folder with one, can be looked up in the tree and read only if
the provider takes the flags off itself (`flagged_not_asked_for`). For objects without flags the two
are the same.

Grafting the repository changes nothing for what stands outside of it. There the path of a file
leads past the place of the graft, not through it.

## Theorems

* `Dir.follow_update_insert`, `Dir.follow_graft`: A file outside the repository stays where it is.
* `Session.listed_fetched`: Showing a listed object asks for its path in the tree, and this is the
  name it was listed under exactly if that has no flag.
* `Session.flagged_not_asked_for`: An object that is listed with a flag is not asked for by its
  name.
-/

namespace TreeShell

namespace Dir

/-- A write at a place that is not on the way to a file leaves the file alone. -/
theorem follow_update_insert {name : String} {node : Node} {mark : Bool} {place : List String}
    {root : Dir} {path : List String} (hout : ¬place ++ [name] <+: path)
    (h : root.follow path = some (.file mark)) :
    (root.update (·.insert name node) place).1.follow path = some (.file mark) := by
  rw [follow_eq_file_iff] at h ⊢
  cases harrived : (root.update (·.insert name node) place).2 with
  | false =>
      rw [update_refused harrived]
      exact h
  | true =>
      -- Nothing but directories stands on the way, so the file is beside it or further down.
      have habove : ¬path <+: place := by
        intro hbegin
        rcases dir_of_arrived harrived hbegin h with ⟨_, hdir⟩
        cases hdir
      by_cases hinside : place <+: path
      · obtain ⟨rest, rfl⟩ := hinside
        have hrest : rest ≠ [] := by
          rintro rfl
          exact habove ((List.append_nil place).symm ▸ List.prefix_refl place)
        rcases exists_dirAt?_of_nodeAt?_append hrest h with ⟨here, hhere, hfile⟩
        rw [List.prefix_append_right_inj] at hout
        rw [nodeAt?_append_of_dirAt? (dirAt?_update_self harrived), openedAt_of_dirAt? hhere,
          nodeAt?_insert_beside _ hout hrest]
        exact hfile
      · rw [nodeAt?_update_beside _ hinside habove]
        exact h

/-- A file outside the repository is where storage has it. -/
theorem follow_graft {storage : Dir} {home path : Path} {name : String} {mark : Bool}
    (hout : path.isWithin (home.repositories.child name) = false)
    (h : storage.follow path.segments = some (.file mark)) (repo : Dir) :
    (storage.graft repo home name).follow path.segments = some (.file mark) := by
  have hplace : ¬home.repositories.segments ++ [name] <+: path.segments := by
    rintro ⟨rest, hrest⟩
    have hwithin : path.isWithin (home.repositories.child name) = true :=
      Path.isWithin_iff.2 ⟨rest, hrest.symm⟩
    rw [hout] at hwithin
    cases hwithin
  rw [graft]
  split
  · exact follow_update_insert hplace h
  · exact h

end Dir

/-- Outside the repository a path is a path of object storage. -/
theorem Path.place_of_outside {path root : Path} (h : path.isWithin root = false) :
    path.place root = .storage path.storageKey := by
  have hbelow : path.below? root = none := by
    rw [below?, if_neg]
    rintro ⟨_, hwithin⟩
    rw [h] at hwithin
    cases hwithin
  rw [place, hbelow]

namespace Session

/-- Shown with any operand that names it and does not begin with a dash, a listed object that may be
    read is asked for once, by its path in the tree. That path is the name it was listed under
    exactly if neither it nor a folder above it has a flag. For this the build has to have
    succeeded, from a provider whose listings do not change and have distinct shown names, and the
    object must not be where the repository is. A path of ordinary names has such an operand, its
    own printed form. -/
theorem listed_fetched {c : Content} {list : String → Except Fault (List StorageEntry)}
    (hlist : ∀ past under, c.answer past (.listing under) = list under)
    (hnames : ∀ segments under, Leads (StorageEntry.level list) "" segments under →
      ∀ entries, list under = .ok entries → (entries.map StorageEntry.name).Nodup)
    {traffic last : Traffic} {storage : Dir}
    (hbuilt : c.storageTree traffic = some (.ok storage, last)) {s : Session}
    (h : s.registry = .builtin)
    (htree : s.tree = storage ∨ ∃ repo, s.tree = storage.graft repo s.home s.config.repo)
    {segments : List String} {under : String}
    (hleads : Leads (StorageEntry.level list) "" segments under) {entries : List StorageEntry}
    (hentries : list under = .ok entries) {e : StorageEntry} (hmem : e ∈ entries)
    (hkind : e.kind = .object) (hreadable : e.readable = true)
    (hout : Path.isWithin ⟨segments ++ [e.name]⟩ s.environment.repoRoot = false) :
    let path : Path := ⟨segments ++ [e.name]⟩
    (∀ line operand, isOption operand = false → Path.normalize s.cwd s.home operand = path →
      (words line = ["cat", operand] →
        (s.run line).2.traffic.requests =
          s.traffic.requests ++ [.text (.storage path.storageKey)]) ∧
      (words line = ["imgcat", operand] → path.extension?.any s.config.isImage = true →
        (s.run line).2.traffic.requests =
          s.traffic.requests ++ [.image (.storage path.storageKey)])) ∧
    (path.Ordinary → isOption path.text = false ∧ Path.normalize s.cwd s.home path.text = path) ∧
    (path.storageKey = StorageEntry.prefixBelow under e.raw ↔
      ':' ∉ (StorageEntry.prefixBelow under e.raw).toList) := by
  intro path
  have hfile : s.tree.follow path.segments = some (.file true) := by
    have hstored := Content.follow_of_listed hlist hnames hbuilt hleads hentries hmem hkind
    rw [hreadable] at hstored
    rcases htree with htree | ⟨repo, htree⟩
    · rw [htree]
      exact hstored
    · rw [htree]
      exact Dir.follow_graft hout hstored repo
  have hplace : path.place s.environment.repoRoot = .storage path.storageKey :=
    Path.place_of_outside hout
  have hnamed : ∀ operand, isOption operand = false → Path.normalize s.cwd s.home operand = path →
      s.environment.Readable operand path := by
    intro operand hplain hnormal
    refine ⟨hplain, ?_⟩
    rw [environment]
    dsimp only
    rw [Dir.resolve, hnormal, hfile]
  refine ⟨fun line operand hplain hnormal => ⟨fun hline => ?_, fun hline himage => ?_⟩,
    fun hordinary => ⟨isOption_text path, Path.normalize_text hordinary _ _⟩,
    Content.shown_eq_listed_iff hlist hnames hbuilt hleads e⟩
  · have hfetches : s.environment.Fetches (words line) path (.text (.storage path.storageKey)) :=
      .text operand hline (hnamed operand hplain hnormal) (by rw [hplace])
    exact requests_of_fetches h hfetches
  · obtain ⟨extension, hsuffix, hshows⟩ := (Option.any_eq_true _ _).1 himage
    have hfetches : s.environment.Fetches (words line) path (.image (.storage path.storageKey)) :=
      .image operand extension hline (hnamed operand hplain hnormal) hsuffix
        (List.contains_iff_mem.1 hshows) (by rw [hplace])
    exact requests_of_fetches h hfetches

/-- A store with a flag on a folder and another one on an object. -/
def flaggedStore : MemoryContent where
  listings := [("", [⟨.folder, "docs:x"⟩, ⟨.object, "notes:1"⟩]),
    ("docs:x", [⟨.object, "a.md"⟩, ⟨.object, "secret:"⟩])]
  texts := [("docs:x/a.md", "text"), ("notes:1", "hello")]

/-- What a build makes of that store. -/
def flaggedTree : Dir :=
  let docs := Dir.ofList [("a.md", .file true), ("secret", .file false)]
  .ofList [("docs", .dir docs), ("notes", .file true)]

theorem storageTree_flaggedStore : flaggedStore.provider.storageTree {} =
    some (.ok flaggedTree, { requests := [.listing "", .listing "docs:x"] }) :=
  (growsTo_of_growFor (n := 2) rfl).grow_eq

/-- A file below the flagged folder is asked for without the folder's flag. -/
theorem listed_fetched_belowFlag :
    let s := overTree (demoSetup .empty) flaggedTree
    (∃ last, flaggedStore.provider.storageTree {} = some (.ok s.tree, last)) ∧
      (s.run "cat ~/../../docs//a.md").2.traffic.requests = [.text (.storage "docs/a.md")] ∧
      ¬Path.joined ["docs", "a.md"] = StorageEntry.prefixBelow "docs:x" "a.md" := by
  intro s
  let list (under : String) := MemoryContent.get "listing" flaggedStore.listings under
  have hdistinct : ∀ listing ∈ flaggedStore.listings,
      (listing.2.map StorageEntry.name).Nodup := by decide
  have hnames : ∀ segments under, Leads (StorageEntry.level list) "" segments under →
      ∀ entries, list under = .ok entries → (entries.map StorageEntry.name).Nodup := by
    intro segments under _ entries hentries
    have hmem : (under, entries) ∈ flaggedStore.listings :=
      (Table.lookup_eq_some_iff (by decide)).1 (MemoryContent.get_eq_ok_iff.1 hentries)
    exact hdistinct _ hmem
  have hleads : Leads (StorageEntry.level list) "" ["docs"] "docs:x" :=
    .step rfl List.mem_cons_self .here
  have hfetched := listed_fetched (c := flaggedStore.provider) (fun _ _ => rfl) hnames
    storageTree_flaggedStore (s := s) rfl (.inl rfl) hleads (e := ⟨.object, "a.md"⟩) rfl
    List.mem_cons_self rfl (by decide) (by decide)
  refine ⟨⟨_, storageTree_flaggedStore⟩, ?_, ?_⟩
  · exact (hfetched.1 "cat ~/../../docs//a.md" "~/../../docs//a.md" (by decide) (by decide)).1
      (by decide)
  · exact fun hsame => absurd (hfetched.2.2.1 hsame) (by decide)

/-- An object with a flag is listed, and shown as readable. Its contents are stored under the name
    it is listed under, but they are asked for under another one, where there is nothing. -/
theorem flagged_not_asked_for :
    let c := flaggedStore.provider
    let s := ((start { demoSetup .empty with content := c }).run "taso-cli reset").2
    (∃ last, c.storageTree {} = some (.ok s.tree, last)) ∧
      c.answer [] (.listing "") = .ok [⟨.folder, "docs:x"⟩, ⟨.object, "notes:1"⟩] ∧
      (∀ listing ∈ flaggedStore.listings, (listing.2.map StorageEntry.name).Nodup) ∧
      (⟨.object, "notes:1"⟩ : StorageEntry).readable = true ∧
      s.tree.follow ["notes"] = some (.file true) ∧
      Path.isWithin ⟨["notes"]⟩ s.environment.repoRoot = false ∧
      c.answer [] (.text (.storage (StorageEntry.prefixBelow "" "notes:1"))) = .ok "hello" ∧
      ¬(s.run "cat /notes").2.traffic.requests = s.traffic.requests ++
        [.text (.storage (StorageEntry.prefixBelow "" "notes:1"))] ∧
      (s.run "cat /notes").2.traffic.requests =
        s.traffic.requests ++ [.text (.storage "notes")] ∧
      (s.run "cat /notes").1 = .text "cat: An error has occurred" := by
  intro c s
  let first := start { demoSetup .empty with content := c }
  have hadmin : first.accounts.AdminSignedIn := by decide
  -- The store has no place for a repository, so the storage tree is what is built.
  have hbuilt : first.environment.Builds (some flaggedTree)
      { requests := [.listing "", .listing "docs:x"] } :=
    .bare storageTree_flaggedStore (by decide)
  have hline : words "taso-cli reset" = ["taso-cli", "reset"] := by decide
  have hs : s = _ := congrArg Prod.snd (run_reset_saved rfl hline hadmin hbuilt rfl)
  rw [hs]
  refine ⟨⟨_, storageTree_flaggedStore⟩, rfl, by decide, by decide, by decide +kernel,
    by decide +kernel, rfl, ?_, ?_, ?_⟩
  · decide +kernel
  · decide +kernel
  · decide +kernel

end Session

end TreeShell
