import TreeShell.Proofs.Session.Rebuild

/-!
# Lines That Fail

A line that fails is recorded with its error, and that is all. Nothing the user can see or rely on
moves: not the working directory, not the tree, not the images or the hidden part of the log, not
who is signed in and not what is stored. The claim is made for every way to fail, in one equation
between sessions, so that there is no part of a session of which it says nothing. What it leaves
open is what the user does not see: the requests that were made, and the supply of characters for
login links.

Only a rebuild whose save is refused does more: it replaces the tree, and the store that refused it
has recorded the call.

A line that never comes back does not fail, and of it nothing is claimed. It is one that rebuilds
from listings without an end.

## Main definitions

* `Session.Fails`: A line ends in an error.

## Theorems

* `Session.Fails.output`: It prints the error.
* `Session.run_recorded`: Every line records itself and one output.
* `Session.run_of_fails`: A line that fails does nothing else.
* `Session.failing_line`: All of this, for any session that can come about.
-/

namespace TreeShell.Session

/-- The line ends in an error: it names no command, or its command turns it away or fails. -/
def Fails (s : Session) (line : String) (error : CommandError) : Prop :=
  (s.registry.result (words line) s.environment).1 = .error error

/-- What a line fails with is what it prints. -/
theorem Fails.output {s : Session} {line : String} {error : CommandError}
    (h : s.Fails line error) : (s.run line).1 = .text error.message := by
  rw [run_output, Registry.execute, Registry.dispatch_eq, h, Output.ofResult]

/-- Every line records itself, with the directory it was typed in, and one output: what it prints,
    or nothing if that is the wish to clear the screen. -/
theorem run_recorded (s : Session) (line : String) :
    (s.run line).2.history = s.history ++ [⟨s.prompt, line⟩] ∧
      (s.run line).2.outputs = s.outputs ++
        [if (s.run line).1 = .clear then .none else (s.run line).1] := by
  unfold run
  rcases s.registry.execute line s.environment with ⟨output, env⟩
  cases output with
  | clear => exact ⟨rfl, rfl⟩
  | _ => exact ⟨rfl, rfl⟩

/-- A line that fails is recorded with its error, and does nothing else but make requests, or spend
    characters; unless it is a rebuild that the store refuses, which has replaced the tree. -/
theorem run_of_fails {s : Session} (hregistry : s.registry = .builtin) {line : String}
    {error : CommandError} (h : s.Fails line error) :
    (∃ traffic tokens, s.run line = (.text error.message,
      ({ s with traffic, tokens } : Session).recorded ⟨s.prompt, line⟩ (.text error.message))) ∨
    (words line = ["taso-cli", "reset"] ∧ s.accounts.AdminSignedIn ∧
      (∃ fault, s.store.saveFault = some fault) ∧
      ∃ tree traffic, s.environment.Builds (some tree) traffic ∧
        s.run line = (.text error.message,
          ({ s with tree, traffic, store := s.store.called (.save tree.snapshot) } :
            Session).recorded ⟨s.prompt, line⟩ (.text error.message))) := by
  rcases s.ends_line line hregistry with ⟨result, env, hresult, hexec, hends⟩
  obtain rfl : result = .error error := by
    rw [Fails, hresult] at h
    exact h
  cases hends with
  | failed _ => exact .inl ⟨s.traffic, s.tokens, s.run_of_output line hexec nofun⟩
  | unanswered _ cause => exact .inl ⟨_, s.tokens, s.run_of_output line hexec nofun⟩
  | unsent _ tokens => exact .inl ⟨s.traffic, tokens, s.run_of_output line hexec nofun⟩
  | @unbuilt _ traffic => exact .inl ⟨traffic, s.tokens, s.run_of_output line hexec nofun⟩
  | @unsaved _ tree traffic fault typed admin built refusal =>
      exact .inr ⟨typed, admin, ⟨fault, refusal⟩, tree, traffic, built,
        s.run_of_output line hexec nofun⟩

/-- In a session that can come about, every line comes back but one that rebuilds from listings
    without an end. A line that comes back adds itself and one output to the log and changes nothing
    in it. If it fails, that is all it does; only a rebuild that the store refuses has also replaced
    the tree. -/
theorem failing_line (setup : Setup) (tree : Dir) (actions : List Action) (line : String) :
    let s := (overTree setup tree).after actions
    ((s.run line).1 = .never ↔ words line = ["taso-cli", "reset"] ∧ s.accounts.AdminSignedIn ∧
      s.content.storageTree s.traffic = none) ∧
    ((s.run line).1 ≠ .never →
      (s.run line).2.history = s.history ++ [⟨s.prompt, line⟩] ∧
      (s.run line).2.outputs = s.outputs ++
        [if (s.run line).1 = .clear then .none else (s.run line).1]) ∧
    ∀ error, s.Fails line error →
      (∃ traffic tokens, s.run line = (.text error.message,
        ({ s with traffic, tokens } : Session).recorded ⟨s.prompt, line⟩ (.text error.message))) ∨
      (words line = ["taso-cli", "reset"] ∧ s.accounts.AdminSignedIn ∧
        (∃ fault, s.store.saveFault = some fault) ∧
        ∃ tree traffic, s.environment.Builds (some tree) traffic ∧
          s.run line = (.text error.message,
            ({ s with tree, traffic, store := s.store.called (.save tree.snapshot) } :
              Session).recorded ⟨s.prompt, line⟩ (.text error.message))) := by
  intro s
  have hregistry : s.registry = .builtin :=
    ((overTree setup tree).sameSetting_after actions).registry
  exact ⟨run_never_iff hregistry line, fun _ => s.run_recorded line,
    fun error => run_of_fails hregistry⟩

/-- A line of the demonstration that fails, in another directory than home. -/
theorem failing_line_demo :
    let s := (overTree (demoSetup .empty) (defaultTree "u")).after [.line "cd /home"]
    s.Fails "cat u" ⟨"cat", .isDirectory "u"⟩ ∧ (s.run "cat u").1 ≠ .never ∧
      (s.run "cat u").2.history = s.history ++ [⟨"/home", "cat u"⟩] ∧
      ∃ traffic tokens, s.run "cat u" = (.text "cat: u: Is a directory",
        ({ s with traffic, tokens } : Session).recorded ⟨"/home", "cat u"⟩
          (.text "cat: u: Is a directory")) := by
  intro s
  rcases failing_line (demoSetup .empty) (defaultTree "u") [.line "cd /home"] "cat u" with
    ⟨hnever, hrecords, hfails⟩
  have hfail : s.Fails "cat u" ⟨"cat", .isDirectory "u"⟩ := by rfl
  have hother : ¬words "cat u" = ["taso-cli", "reset"] := by decide
  have hreturned : (s.run "cat u").1 ≠ .never := fun h => hother (hnever.1 h).1
  refine ⟨hfail, hreturned, (hrecords hreturned).1, ?_⟩
  rcases hfails _ hfail with hrun | ⟨hline, _⟩
  · exact hrun
  · exact absurd hline hother

end TreeShell.Session
