import TreeShell.Proofs.Tree.Ensured
import TreeShell.Proofs.Tree.Prefixes
import TreeShell.Tree.Graft

/-!
# What a Graft Changes

A graft looks for its place in one way and writes to it in another. It reads the printed path of the
place as typed text and looks that up; then it walks to the place name by name, and such a walk
could create directories. For a home directory whose names can be typed the two come to the same
directory, so the walk finds what was looked up and creates nothing. The graft is then no more than
a replacement of one directory by the same one with one more entry, or with another one in the place
of an old one.

From there on it is a matter of paths. A path that is not on the way to the new entry and not below
it has the node that it had. The directories on the way hold the same names in the same order, since
each of them is written under a name that it has.

## Theorems

* `Dir.graft_of_dirAt?`, `Dir.graft_of_none`: A graft replaces the directory of its place, or
  changes nothing.
* `Dir.toList_insert_of_eq_append`: A name that is there keeps its place.
* `Dir.names_replaceAt`: Replacing a directory moves nothing above it.
* `Dir.graft_one_place`: Where a graft changes the tree, and where not.
-/

namespace TreeShell

/-- The place of the repositories can be typed where the home directory can. -/
theorem Path.Ordinary.repositories {home : Path} (h : home.Ordinary) :
    home.repositories.Ordinary := by
  intro name hname
  rw [Path.repositories, Path.segments_child] at hname
  rcases List.mem_append.1 hname with hname | hname
  · exact h name hname
  · rw [List.mem_singleton.1 hname]
    decide

namespace Dir

section Place

variable {storage : Dir} {home : Path} (hhome : home.Ordinary)

include hhome

/-- The place that a graft looks for by its printed path is the one that it walks to. -/
theorem resolve_repositories :
    (storage.resolve .root home home.repositories.text).node =
      storage.follow home.repositories.segments := by
  rw [resolve, Path.normalize_text hhome.repositories]

/-- Where there is a place, a graft replaces its directory. -/
theorem graft_of_dirAt? {here : Dir} (h : storage.dirAt? home.repositories.segments = some here)
    (repo : Dir) (name : String) :
    storage.graft repo home name =
      storage.replaceAt home.repositories.segments (here.insert name (.dir repo)) := by
  rw [graft, resolve_repositories hhome, dirAt?_eq_some_iff.1 h]
  dsimp only
  rw [update_eq_replaceAt h]

/-- Without one, it changes nothing. -/
theorem graft_of_none (h : storage.dirAt? home.repositories.segments = none) (repo : Dir)
    (name : String) : storage.graft repo home name = storage := by
  rw [graft, resolve_repositories hhome]
  split
  · rename_i here hnode
    rw [dirAt?_eq_some_iff.2 hnode] at h
    cases h
  · rfl

end Place

/-- Where a name is there, a write of it takes the place of the entry. -/
theorem toList_insert_of_eq_append {d : Dir} {name : String} {old : Node}
    {before later : List (String × Node)} (hd : d.names.Nodup)
    (hsplit : d.toList = before ++ (name, old) :: later) (node : Node) :
    (d.insert name node).toList = before ++ (name, node) :: later := by
  have hname : name ∉ before.map Prod.fst := by
    rw [names, hsplit, List.map_append, List.map_cons, List.nodup_append] at hd
    exact fun hmem => hd.2.2 name hmem name List.mem_cons_self rfl
  have hlist (node : Node) :
      ((entry name node (empty.prepend later)).prepend before).toList =
        before ++ (name, node) :: later := by
    rw [toList_prepend, toList_entry, toList_prepend, toList_empty, List.append_nil]
  obtain rfl : d = (entry name old (empty.prepend later)).prepend before :=
    toList_injective (hsplit.trans (hlist old).symm)
  rw [insert_prepend_entry hname, hlist]

section Replaced

variable {root here : Dir} {place : List String} (h : root.dirAt? place = some here)

include h

/-- What stands below it is what the new directory holds. -/
theorem nodeAt?_replaceAt_below (entries : Dir) (rest : List String) :
    (root.replaceAt place entries).nodeAt? (place ++ rest) = entries.nodeAt? rest :=
  nodeAt?_append_of_dirAt? (dirAt?_replaceAt h entries) rest

/-- The directories above it have their names as before, since the way leads through them. -/
theorem names_replaceAt (entries : Dir) {above : List String} (habove : above <+: place)
    (hne : above ≠ place) {old : Dir} (hold : root.dirAt? above = some old) :
    ∃ new, (root.replaceAt place entries).dirAt? above = some new ∧ new.names = old.names := by
  obtain ⟨rest, hrest⟩ := habove
  cases rest with
  | nil => exact absurd ((List.append_nil above).symm.trans hrest) hne
  | cons name rest =>
      have harrived : (root.update (fun _ => entries) place).2 = true := by
        rw [update_eq_replaceAt h]
      obtain ⟨below, hbelow⟩ := dirAt?_update_above harrived hrest
      rw [openedAt_of_dirAt? hold] at hbelow
      refine ⟨_, hbelow, ?_⟩
      rw [← hrest, dirAt?_append, hold, Option.bind_some] at h
      obtain ⟨child, hfind, _⟩ := dirAt?_cons_eq_some_iff.1 h
      have hmem : name ∈ old.names := List.mem_map_of_mem (mem_toList_of_find? hfind)
      rw [names_insert, if_pos hmem]

end Replaced

section Insert

variable {here : Dir} {name : String} {path : List String}

/-- Beside the entry that is written, a directory holds what it held. -/
theorem nodeAt?_insert_beside (node : Node) (h : ¬[name] <+: path) (hne : path ≠ []) :
    (here.insert name node).nodeAt? path = here.nodeAt? path := by
  obtain ⟨first, rest, rfl⟩ := List.exists_cons_of_ne_nil hne
  have hfirst : first ≠ name := by
    rintro rfl
    exact h ⟨rest, rfl⟩
  rw [nodeAt?_cons, nodeAt?_cons, find?_insert_of_ne hfirst]

end Insert

/-- A graft changes a tree at one place. If the repositories directory of the home directory is
    reached, then the repository is there under its name: in the place of an old entry of that name,
    or else as the last one. Whatever stands neither at the new entry nor below it nor on the way to
    it is the node that stood there, and the names of every directory outside of the repository are
    in their old order. If it is not reached, nothing is changed. Of two grafts under one name the
    later one counts. -/
theorem graft_one_place {storage : Dir} (h : storage.Distinct) {home : Path}
    (hhome : home.Ordinary) (repo : Dir) (name : String) :
    let place := home.repositories.segments
    let grafted := storage.graft repo home name
    (∀ here, storage.Reaches place (.dir here) →
      grafted.nodeAt? (place ++ [name]) = some (.dir repo) ∧
      (∃ now, grafted.dirAt? place = some now ∧
        (∀ before old later, here.toList = before ++ (name, old) :: later →
          now.toList = before ++ (name, .dir repo) :: later) ∧
        (name ∉ here.names → now.toList = here.toList ++ [(name, .dir repo)])) ∧
      (∀ path, ¬place ++ [name] <+: path → ¬path <+: place ++ [name] →
        grafted.nodeAt? path = storage.nodeAt? path) ∧
      ∀ path entries, ¬place ++ [name] <+: path → path ≠ place →
        storage.dirAt? path = some entries →
          ∃ now, grafted.dirAt? path = some now ∧ now.names = entries.names) ∧
    ((∀ here, ¬storage.Reaches place (.dir here)) → grafted = storage) ∧
    ∀ second, grafted.graft second home name = storage.graft second home name := by
  intro place grafted
  have hreaches : ∀ here, storage.Reaches place (.dir here) ↔
      storage.dirAt? place = some here := by
    intro here
    rw [dirAt?_eq_some_iff, follow_eq_some_iff h (by simp)]
  refine ⟨fun here hplace => ?_, fun hnone => ?_, fun second => ?_⟩
  · rw [hreaches] at hplace
    have hgrafted : grafted = storage.replaceAt place (here.insert name (.dir repo)) :=
      graft_of_dirAt? hhome hplace repo name
    have hhere : here.names.Nodup := by
      have hnode := Node.everywhere_of_follow h (dirAt?_eq_some_iff.1 hplace)
      exact hnode.1
    have hbeside : ∀ path, ¬place ++ [name] <+: path → ¬path <+: place ++ [name] →
        grafted.nodeAt? path = storage.nodeAt? path := by
      intro path hbelow habove
      rw [hgrafted]
      by_cases hinside : place <+: path
      · -- The path leads into the directory, to another entry of it.
        obtain ⟨rest, rfl⟩ := hinside
        rw [nodeAt?_replaceAt_below hplace, nodeAt?_append_of_dirAt? hplace]
        rw [List.prefix_append_right_inj] at hbelow habove
        exact nodeAt?_insert_beside _ hbelow fun hnil => habove (hnil ▸ List.nil_prefix)
      · refine nodeAt?_update_beside _ hinside fun hp => ?_
        exact habove (hp.trans (List.prefix_append place [name]))
    refine ⟨?_, ⟨_, hgrafted ▸ dirAt?_replaceAt hplace _, fun before old later hsplit => ?_,
      fun hnew => ?_⟩, hbeside, fun path entries hbelow hne hentries => ?_⟩
    · rw [hgrafted, nodeAt?_replaceAt_below hplace, nodeAt?_cons, find?_insert_self,
        Option.bind_some, Node.nodeAt?_nil]
    · exact toList_insert_of_eq_append hhere hsplit _
    · exact toList_insert_of_notMem _ hnew
    · by_cases habove : path <+: place
      · rw [hgrafted]
        exact names_replaceAt hplace _ habove hne hentries
      · -- It is neither on the way nor below, so it is the same directory.
        refine ⟨entries, dirAt?_eq_some_iff_nodeAt?.2 ?_, rfl⟩
        rw [hbeside path hbelow fun hp => ?_, dirAt?_eq_some_iff_nodeAt?.1 hentries]
        rcases List.prefix_concat_iff.1 hp with rfl | hp
        · exact hbelow (List.prefix_refl _)
        · exact habove hp
  · refine graft_of_none hhome (Option.eq_none_iff_forall_ne_some.2 fun here hhere => ?_) repo name
    exact hnone here ((hreaches here).2 hhere)
  · cases hplace : storage.dirAt? place with
    | none =>
        rw [show grafted = storage from graft_of_none hhome hplace repo name]
    | some here =>
        have hgrafted : grafted = storage.replaceAt place (here.insert name (.dir repo)) :=
          graft_of_dirAt? hhome hplace repo name
        have hnow : grafted.dirAt? place = some (here.insert name (.dir repo)) :=
          hgrafted ▸ dirAt?_replaceAt hplace _
        rw [graft_of_dirAt? hhome hnow, graft_of_dirAt? hhome hplace, hgrafted,
          replaceAt_replaceAt hplace, insert_insert]

/-- A repository that takes the place of a file, between two other entries. -/
theorem graft_one_place_between :
    let repositories := ofList [("a", .denied), ("r", .file false), ("z", .file true)]
    let user := ofList [("repositories", .dir repositories), ("note.md", .file true)]
    let storage := ofList [("home", .dir (ofList [("u", .dir user)]))]
    let repo := ofList [("README.md", .file true)]
    let grafted := storage.graft repo (.home "u") "r"
    grafted.nodeAt? ["home", "u", "repositories", "r"] = some (.dir repo) ∧
      grafted.nodeAt? ["home", "u", "note.md"] = some (.file true) ∧
      grafted.nodeAt? ["home", "u", "repositories", "z"] = some (.file true) ∧
      grafted.graft user (.home "u") "r" = storage.graft user (.home "u") "r" := by
  intro repositories user storage repo grafted
  have hdistinct : storage.Everywhere fun d => d.names.Nodup := by decide
  have hhome : (Path.home "u").Ordinary := by decide
  have hrepositories : ("repositories", .dir repositories) ∈ user.toList := by decide
  have huser : ("u", .dir user) ∈ (ofList [("u", .dir user)]).toList := by decide
  have hentry : ("home", .dir (ofList [("u", .dir user)])) ∈ storage.toList := by decide
  have hreaches : storage.Reaches (Path.home "u").repositories.segments (.dir repositories) :=
    .step hentry (.step huser (.step hrepositories .here))
  rcases graft_one_place hdistinct hhome repo "r" with ⟨hplace, _, htwice⟩
  rcases hplace repositories hreaches with ⟨hrepo, _, hbeside, _⟩
  refine ⟨hrepo, ?_, ?_, htwice user⟩
  · exact (hbeside ["home", "u", "note.md"] (by decide) (by decide)).trans (by decide)
  · exact (hbeside ["home", "u", "repositories", "z"] (by decide) (by decide)).trans (by decide)

end Dir

end TreeShell
