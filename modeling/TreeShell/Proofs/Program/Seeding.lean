import TreeShell.Program.Demo
import TreeShell.Proofs.Command.Blind
import TreeShell.Proofs.Session.Rebuild

/-!
# Seeding

A first snapshot can come about in two ways: the program seeds an empty store before any session
begins, and an administrator rebuilds. Both assemble the tree from the same backends, but not by the
same steps. Seeding always asks for the repository and leaves it to the graft to find no place for
it. A rebuild looks for the place first, by reading `~/repositories` in the directory where the
session stands, and where it finds none it does not ask.

That the two agree rests on three facts. A provider whose answers are fixed does not notice how much
was asked before, so it gives the rebuild what it gave the seeding. For a home directory that can be
typed, the rebuild looks in the place where the graft looks. And without a place the graft is the
storage tree alone, so the repository that was asked for in vain leaves no trace.

The converse does not hold. Where the repository cannot be had and there is no place for it, seeding
fails and a rebuild succeeds.

A seeding may also have no end, where nothing is stored and the listings never end.

## Theorems

* `seed_eq_none_iff`: When a seeding never ends.
* `seed_cases`: Seeding an empty store fails and stores nothing, or saves the grafted tree.
* `seed_store_of_kept`: Where there is a snapshot, or a step fails, the store keeps what it holds.
* `seed_of_answers`: With answers from both backends, seeding saves the grafted tree.
* `Environment.builds_of_answers`: What the answers were that seeding was given, a rebuild comes to
  the same tree.
* `seeding_agrees_with_reset`: Seeding and rebuilding save the same snapshot.
-/

namespace TreeShell

theorem Store.held_of_found {store : Store} (h : store.found = .ok none) :
    store.held = .nothing := by
  unfold found at h
  split at h
  · cases h
  · assumption
  · cases h
  · cases h

section Seed

variable (config : Config) (content : Content) (traffic : Traffic) (store : Store)

/-- A seeding never ends exactly if nothing is stored and the listings never end. -/
theorem seed_eq_none_iff : seed config content traffic store = none ↔
    store.found = .ok none ∧ content.storageTree traffic = none := by
  unfold seed Store.load
  rcases store.found with fault | _ | held
  · exact ⟨nofun, fun h => nomatch h.1⟩
  · dsimp only
    rw [Option.map_eq_none_iff]
    exact (and_iff_right rfl).symm
  · exact ⟨nofun, fun h => nomatch h.1⟩

variable {store} {outcome : Except Fault Unit} {after : Traffic} {seeded : Store}
  (hseed : seed config content traffic store = some (outcome, after, seeded))

include hseed

/-- Seeding an empty store fails and leaves it empty, or both backends have answered, and the store
    holds the snapshot of the grafted tree. -/
theorem seed_cases (hempty : store.found = .ok none) :
    ((∃ fault, outcome = .error fault) ∧ seeded = { store with calls := seeded.calls }) ∨
    (outcome = .ok () ∧ ∃ storage repo listed before,
      content.storageTree traffic = some (.ok storage, listed) ∧
      (content.ask (.repositoryTree config.user config.repo) before).1 = .ok repo ∧
      seeded =
        store.load.2.saved (storage.graft repo (.home config.user) config.repo).snapshot) := by
  simp only [seed, Store.load, hempty] at hseed
  rcases Option.map_eq_some_iff.1 hseed with ⟨⟨fault | storage, listed⟩, hlist, hrest⟩
  · cases hrest
    exact .inl ⟨⟨fault, rfl⟩, rfl⟩
  · dsimp only at hrest
    rcases hwalk : content.ask (.repositoryTree config.user config.repo) listed with
      ⟨fault | repo, walked⟩
    · rw [hwalk] at hrest
      cases hrest
      exact .inl ⟨⟨fault, rfl⟩, rfl⟩
    · rw [hwalk] at hrest
      dsimp only at hrest
      rcases store.saveFault.eq_none_or_eq_some with hfault | ⟨fault, hfault⟩
      · have haccepted : (store.called .load).saveFault = none := hfault
        rw [Store.save_accepted haccepted] at hrest
        cases hrest
        exact .inr ⟨rfl, storage, repo, listed, listed, hlist, by rw [hwalk], rfl⟩
      · have hrefused : (store.called .load).saveFault = some fault := hfault
        rw [Store.save_refused hrefused] at hrest
        cases hrest
        exact .inl ⟨⟨fault, rfl⟩, rfl⟩

/-- Where there is a snapshot, or a step fails, the store was called and is otherwise as it was. -/
theorem seed_store_of_kept
    (h : (∃ held, store.found = .ok (some held)) ∨ ∃ fault, outcome = .error fault) :
    seeded = { store with calls := seeded.calls } := by
  rcases hfound : store.found with fault | _ | held
  · simp only [seed, Store.load, hfound] at hseed
    cases hseed
    rfl
  · rcases seed_cases config content traffic hseed hfound with ⟨_, hsame⟩ | ⟨hok, _⟩
    · exact hsame
    · -- It was empty and no step failed, so neither of the two reasons holds.
      rw [hfound, hok] at h
      rcases h with ⟨_, h⟩ | ⟨_, h⟩
      · cases h
      · cases h
  · simp only [seed, Store.load, hfound] at hseed
    cases hseed
    rfl

end Seed

/-- Where both backends answer and an empty store takes the snapshot, seeding succeeds. -/
theorem seed_of_answers {config : Config} {content : Content} {traffic listed : Traffic}
    {store : Store} (hempty : store.found = .ok none) (haccepted : store.saveFault = none)
    {storage repo : Dir} (hlisted : content.storageTree traffic = some (.ok storage, listed))
    (hwalked : (content.ask (.repositoryTree config.user config.repo) listed).1 = .ok repo) :
    ∃ after, seed config content traffic store = some (.ok (), after,
      store.load.2.saved (storage.graft repo (.home config.user) config.repo).snapshot) := by
  have hwalk : content.ask (.repositoryTree config.user config.repo) listed =
      (.ok repo, (content.ask (.repositoryTree config.user config.repo) listed).2) :=
    Prod.ext hwalked rfl
  have hcalled : (store.called .load).saveFault = none := haccepted
  refine ⟨(content.ask (.repositoryTree config.user config.repo) listed).2, ?_⟩
  simp only [seed, Store.load, hempty, hlisted, Option.map_some]
  rw [hwalk]
  dsimp only
  rw [Store.save_accepted hcalled]

namespace Environment

variable {env : Environment} (hhome : env.home.Ordinary)

include hhome

/-- A rebuild comes to the grafted tree, if the provider's answers do not depend on what it was
    asked before and it has given the storage tree and the repository once. -/
theorem builds_of_answers (hsteady : env.content.Steady) {storage repo : Dir}
    {past listed before : Traffic}
    (hlisted : env.content.storageTree past = some (.ok storage, listed))
    (hwalked : (env.content.ask (.repositoryTree env.config.user env.config.repo) before).1 =
      .ok repo) :
    ∃ traffic, env.Builds (some (storage.graft repo env.home env.config.repo)) traffic := by
  -- The rebuild reads `~/repositories` as the place of the graft.
  have hplace : Path.normalize env.cwd env.home "~/repositories" = env.home.repositories :=
    normalize_repositories hhome
  have hsame := hsteady.storageTree env.traffic past
  rw [hlisted, Option.map_some] at hsame
  rcases Option.map_eq_some_iff.1 hsame with ⟨⟨_, listed'⟩, hlist, rfl⟩
  cases hdir : storage.dirAt? env.home.repositories.segments with
  | none =>
      rw [Dir.graft_of_none hhome hdir]
      exact ⟨listed', .bare hlist (hplace ▸ hdir)⟩
  | some place =>
      let walk : Request := .repositoryTree env.config.user env.config.repo
      have hwalk : env.content.ask walk listed' = (.ok repo, (env.content.ask walk listed').2) := by
        rw [← hwalked, hsteady.ask walk before listed']
      exact ⟨_, .grafted hlist (hplace ▸ hdir) hwalk⟩

end Environment

/-- A seeding ends unless nothing is stored and the listings never end. Whatever snapshot it then
    has given to an empty store, a rebuild gives its own store the same one: in any session with the
    configuration and the provider, wherever it stands and whatever its tree is, if an administrator
    is signed in and the store takes it. Where the store already holds a snapshot, or seeding fails,
    the store is as it was, but for the record of its calls. Where seeding succeeds on an empty
    store, it has saved. -/
theorem seeding_agrees_with_reset {config : Config} {content : Content} (hsteady : content.Steady)
    (huser : Path.OrdinaryName config.user) (traffic : Traffic) (store : Store) :
    (seed config content traffic store = none ↔
      store.found = .ok none ∧ content.storageTree traffic = none) ∧
    ∀ outcome after seeded, seed config content traffic store = some (outcome, after, seeded) →
      (store.found = .ok none → ∀ snapshot, seeded.held = .text snapshot →
        ∀ (s : Session) (line : String), s.Seated → s.config = config → s.content = content →
          s.accounts.AdminSignedIn → s.store.saveFault = none →
          words line = ["taso-cli", "reset"] →
            (s.run line).1 = .text Session.updatedText ∧
              (s.run line).2.store = s.store.saved snapshot) ∧
      ((∃ held, store.found = .ok (some held)) ∨ (∃ fault, outcome = .error fault) →
        seeded = { store with calls := seeded.calls }) ∧
      (store.found = .ok none → outcome = .ok () →
        ∃ snapshot, seeded = store.load.2.saved snapshot) := by
  refine ⟨seed_eq_none_iff config content traffic store, fun outcome after seeded hseed =>
    ⟨fun hempty snapshot hheld s line hs hconfig hcontent hadmin haccepted hline => ?_,
      seed_store_of_kept config content traffic hseed, fun hempty hok => ?_⟩⟩
  · rcases seed_cases config content traffic hseed hempty with
      ⟨_, hsame⟩ | ⟨_, storage, repo, listed, before, hlisted, hwalked, hsaved⟩
    · -- Then the store is still empty.
      rw [hsame] at hheld
      cases (Store.held_of_found hempty).symm.trans hheld
    · obtain rfl : (storage.graft repo (.home config.user) config.repo).snapshot = snapshot := by
        rw [hsaved] at hheld
        exact Held.text.inj hheld
      subst hconfig hcontent
      have hhome : s.environment.home.Ordinary := hs.ordinary_home huser
      rcases Environment.builds_of_answers hhome hsteady hlisted hwalked with ⟨traffic', hbuilt⟩
      rw [Session.run_reset_saved hs.registry hline hadmin hbuilt haccepted, ← hs.home]
      exact ⟨rfl, rfl⟩
  · rcases seed_cases config content traffic hseed hempty with
      ⟨⟨fault, hfault⟩, _⟩ | ⟨_, _, _, _, _, _, _, hsaved⟩
    · rw [hok] at hfault
      cases hfault
    · exact ⟨_, hsaved⟩

/-- The content of the demonstration is seeded, and then rebuilt from a directory that does not
    exist. Seeding once more keeps what is there. -/
theorem seeding_agrees_with_reset_astray :
    let setup := Session.demoSetup (.ofList [("README.md", .file true)])
    let s : Session := { Session.start setup with cwd := ⟨["gone", "~"]⟩ }
    ∃ after snapshot,
      seed setup.config setup.content {} {} = some (.ok (), after,
        { held := .text snapshot, calls := [.load, .save snapshot] }) ∧
      (s.run " taso-cli  reset").2.store =
        { held := .text snapshot, calls := [.save snapshot] } ∧
      seed setup.config setup.content {}
          { held := .text snapshot, calls := [.load, .save snapshot] } = some (.ok (), {},
        { held := .text snapshot, calls := [.load, .save snapshot, .load] }) := by
  intro setup s
  have hsteady : setup.content.Steady := MemoryContent.steady_provider _
  have huser : Path.OrdinaryName setup.config.user := by decide
  have hadmin : s.accounts.AdminSignedIn := by decide
  have hdistinct : (Dir.ofList [("README.md", .file true)]).Everywhere fun d => d.names.Nodup := by
    decide
  rcases Session.storageTree_demo (.ofList [("README.md", .file true)]) {} with ⟨listed, hlisted⟩
  have hwalked := Session.ask_demo hdistinct setup.config.user setup.config.repo listed
  have hempty : ({} : Store).found = .ok none := rfl
  rcases seed_of_answers hempty rfl hlisted hwalked with ⟨after, hseeded⟩
  have hreset := ((seeding_agrees_with_reset hsteady huser {} {}).2 _ _ _ hseeded).1 rfl _ rfl s
    " taso-cli  reset" ⟨rfl, rfl⟩ rfl rfl hadmin rfl (by decide)
  exact ⟨after, _, hseeded, hreset.2, rfl⟩

end TreeShell
