import TreeShell.Proofs.Backend.Collisions
import TreeShell.Proofs.Backend.Table
import TreeShell.Proofs.Tree.Ranked

/-!
# Builds from Finitely Many Listings

Object storage has no order among its prefixes, and the build asks for whatever it is told. The same
prefix may be listed twice, several folders may be shown under one name, and a name may be empty or
have slashes in it, so that one prefix is come to in different ways. None of this can make the build
go on for ever if there are only finitely many listings with something in them. Below the root
every step makes the prefix longer, if only by the slash, and a prefix that is longer than every
listed one has nothing below it.

The root is the exception. Its prefix is empty, and no slash is put behind it, so the prefix of a
folder without a name is the root's own again. If the root has no such folder, how much longer a
prefix can still become is a rank that goes down at each step (`Content.level_below`). If the root
has nothing else, the build never ends (`Content.storageTree_endless`).

A provider need not answer alike each time. Only what it may answer at all has to be finite.

## Main definitions

* `prefixRank`: How much longer than a prefix the listed ones are.
* `requestBound`: How many requests are enough for some listings.

## Theorems

* `StorageEntry.prefixRank_below`: A folder has a lower rank than the listing that it is in.
* `Content.storageTree_ends`: A build ends, and after how many requests at most.
* `Content.storageTree_endless`: One that does not.
* `MemoryContent.storageTree_ne_none`: A build from listings held in memory ends.
-/

namespace TreeShell

/-- How much longer than `under` a prefix can still become, where none is listed that is longer than
    `longest`. The root comes before all others. -/
def prefixRank (longest : Nat) (under : String) : Nat :=
  if under = "" then longest + 2 else longest + 1 - under.length

/-- How many requests are enough for a build from some listings: below the root every step makes the
    prefix longer, and no listing has a longer prefix than the longest one. -/
def requestBound (listings : Table (List StorageEntry)) : Nat :=
  effort ((listings.map (·.2.length)).foldl max 0)
    ((listings.map (·.1.length)).foldl max 0 + 2)

/-- The prefix of a folder is not the root's unless the folder has no name and lies at the root. -/
theorem StorageEntry.prefixBelow_ne_empty {under raw : String} (h : under = "" → raw ≠ "") :
    prefixBelow under raw ≠ "" := by
  rw [prefixBelow]
  split
  · rename_i hroot
    exact h hroot
  · rename_i hbelow
    intro hempty
    have hlength := congrArg String.length hempty
    simp at hlength

/-- A folder has a lower rank than the listing that it is in. -/
theorem StorageEntry.prefixRank_below {longest : Nat} {under raw : String}
    (hlisted : under.length ≤ longest) (hnamed : under = "" → raw ≠ "") :
    prefixRank longest (prefixBelow under raw) < prefixRank longest under := by
  have hne := prefixBelow_ne_empty hnamed
  rw [prefixRank, if_neg hne, prefixRank]
  split
  · omega
  · rename_i hbelow
    have hlonger : (prefixBelow under raw).length = under.length + 1 + raw.length := by
      rw [prefixBelow, if_neg hbelow, String.length_append, String.length_append]
      rfl
    omega

namespace Content

/-- A level is a listing. -/
theorem levels_eq_ok {c : Content} {under : String} {traffic next : Traffic}
    {level : List (Sprout String)} (h : c.levels under traffic = (.ok level, next)) :
    ∃ entries : List StorageEntry, c.answer traffic.requests (.listing under) = .ok entries ∧
      level = entries.map (StorageEntry.sprout under) := by
  have hlevel : (c.answer traffic.requests (.listing under)).map
      (List.map (StorageEntry.sprout under)) = .ok level := (Prod.mk.inj h).1
  cases hanswer : c.answer traffic.requests (.listing under) with
  | error fault =>
      rw [hanswer] at hlevel
      cases hlevel
  | ok entries =>
      rw [hanswer] at hlevel
      exact ⟨entries, rfl, (Except.ok.inj hlevel).symm⟩

section Finite

variable {c : Content} {listings : Table (List StorageEntry)}
  (hfinite : ∀ past under (entries : List StorageEntry),
    c.answer past (.listing under) = .ok entries → entries = [] ∨ (under, entries) ∈ listings)
  (hroot : ∀ past (entries : List StorageEntry), c.answer past (.listing "") = .ok entries →
    ⟨.folder, ""⟩ ∉ entries)

include hfinite hroot

/-- A level is no longer than the longest listing, and its folders have lower ranks than it. -/
theorem level_below {under : String} {traffic next : Traffic} {level : List (Sprout String)}
    (h : c.levels under traffic = (.ok level, next)) :
    level.length ≤ (listings.map (·.2.length)).foldl max 0 ∧
      ∀ name child, .branch name child ∈ level →
        prefixRank ((listings.map (·.1.length)).foldl max 0) child <
          prefixRank ((listings.map (·.1.length)).foldl max 0) under := by
  rcases levels_eq_ok h with ⟨entries, hanswer, rfl⟩
  rcases hfinite traffic.requests under entries hanswer with rfl | hlisted
  · exact ⟨Nat.zero_le _, fun name child hmem => absurd hmem List.not_mem_nil⟩
  · refine ⟨?_, fun name child hmem => ?_⟩
    · rw [List.length_map]
      exact le_foldl_max (List.mem_map.2 ⟨_, hlisted, rfl⟩)
    · rcases List.mem_map.1 hmem with ⟨e, he, hbranch⟩
      rcases e with ⟨kind, raw⟩
      obtain ⟨rfl, -, rfl⟩ := StorageEntry.eq_of_sprout_eq_branch hbranch
      refine StorageEntry.prefixRank_below (le_foldl_max (List.mem_map.2 ⟨_, hlisted, rfl⟩)) ?_
      -- Below the root a folder may do without a name, since its prefix still has the slash.
      rintro rfl rfl
      exact hroot traffic.requests entries hanswer he

end Finite

/-- A build from finitely many listings that have something in them ends, whatever is listed twice,
    shown under one name or named in an odd way, if only the root never lists a folder without a
    name. It has then made finitely many requests, at most as many as the longest listing and the
    longest prefix allow. -/
theorem storageTree_ends {c : Content} {listings : Table (List StorageEntry)}
    (hfinite : ∀ past under (entries : List StorageEntry),
      c.answer past (.listing under) = .ok entries → entries = [] ∨ (under, entries) ∈ listings)
    (hroot : ∀ past (entries : List StorageEntry), c.answer past (.listing "") = .ok entries →
      ⟨.folder, ""⟩ ∉ entries)
    (traffic : Traffic) :
    ∃ asked result last, GrowsTo c.levels [("", [])] .empty traffic asked result last ∧
      asked.length ≤ requestBound listings ∧
      last.requests = traffic.requests ++ asked.map .listing ∧
      c.storageTree traffic = some (result, last) := by
  rcases exists_growsTo (fun _ _ _ _ => level_below hfinite hroot) [("", [])] .empty traffic with
    ⟨asked, result, last, hgrows, hless⟩
  exact ⟨asked, result, last, hgrows, hless, requests_of_growsTo hgrows, hgrows.grow_eq⟩

/-- A folder is listed twice and shares its name with another, one has no name below the root, and
    one has a slash in it. What is not listed is empty. Some prefixes are asked for twice. -/
theorem storageTree_ends_tangled :
    let listings : Table (List StorageEntry) :=
      [("", [⟨.folder, "p"⟩, ⟨.folder, "p:1"⟩, ⟨.folder, "p"⟩, ⟨.folder, ":x"⟩]),
        ("p", [⟨.folder, ""⟩, ⟨.object, "a/b:"⟩, ⟨.folder, "q/r"⟩]), ("p/", [⟨.folder, ""⟩])]
    let c : Content :=
      { answer := fun _ r => match r with
          | .listing under => .ok ((List.lookup under listings).getD [])
          | other => MemoryContent.answer {} other
        delay := fun _ _ => 0 }
    (∀ past under (entries : List StorageEntry),
      c.answer past (.listing under) = .ok entries → entries = [] ∨ (under, entries) ∈ listings) ∧
    (∀ past (entries : List StorageEntry), c.answer past (.listing "") = .ok entries →
      ⟨.folder, ""⟩ ∉ entries) ∧
    ∃ asked result last, GrowsTo c.levels [("", [])] .empty {} asked result last ∧
      c.storageTree {} = some (result, last) ∧
      asked = ["", ":x", "p", "p/q/r", "p/", "p//", "p:1", "p", "p/q/r", "p/", "p//"] := by
  intro listings c
  have hfinite : ∀ past under (entries : List StorageEntry),
      c.answer past (.listing under) = .ok entries →
        entries = [] ∨ (under, entries) ∈ listings := by
    intro past under entries hanswer
    have hentries : (List.lookup under listings).getD [] = entries := Except.ok.inj hanswer
    cases hlookup : List.lookup under listings with
    | none =>
        rw [hlookup] at hentries
        exact .inl hentries.symm
    | some found =>
        rw [hlookup] at hentries
        exact .inr (hentries ▸ (Table.lookup_eq_some_iff (by decide)).1 hlookup)
  have hroot : ∀ past (entries : List StorageEntry), c.answer past (.listing "") = .ok entries →
      ⟨.folder, ""⟩ ∉ entries := by
    rintro past entries hanswer
    cases hanswer
    decide
  refine ⟨hfinite, hroot, ?_⟩
  rcases storageTree_ends hfinite hroot {} with
    ⟨asked, result, last, hgrows, hless, hrequests, hbuilt⟩
  exact ⟨asked, result, last, hgrows, hbuilt, hgrows.unique (growsTo_of_growFor (n := 11) rfl)⟩

/-- If all that the root lists is a folder without a name, the build never ends. -/
theorem storageTree_endless {c : Content}
    (hself : ∀ past, c.answer past (.listing "") = .ok ([⟨.folder, ""⟩] : List StorageEntry))
    (traffic : Traffic) : c.storageTree traffic = none := by
  have hlevel : ∀ traffic, (c.levels "" traffic).1 = .ok [.branch "" ""] := by
    intro traffic
    rw [levels, ask, hself]
    rfl
  exact grow_endless hlevel (Dir.dirAt?_nil .empty) traffic

end Content

/-- A build from listings held in memory ends, if the root does not list a folder without a name. -/
theorem MemoryContent.storageTree_ne_none {m : MemoryContent}
    (hroot : ∀ entries, get "listing" m.listings "" = .ok entries → ⟨.folder, ""⟩ ∉ entries)
    (traffic : Traffic) : m.provider.storageTree traffic ≠ none := by
  have hfinite : ∀ (past : List Request) under (entries : List StorageEntry),
      m.provider.answer past (.listing under) = .ok entries →
        entries = [] ∨ (under, entries) ∈ m.listings := by
    intro past under entries hanswer
    rcases List.lookup_eq_some_iff.1 (get_eq_ok_iff.1 hanswer) with ⟨before, later, hsplit, _⟩
    rw [hsplit]
    exact .inr (List.mem_append_right _ List.mem_cons_self)
  rcases Content.storageTree_ends hfinite (fun _ => hroot) traffic with
    ⟨_, result, last, _, _, _, hbuilt⟩
  rw [hbuilt]
  exact Option.some_ne_none _

end TreeShell
