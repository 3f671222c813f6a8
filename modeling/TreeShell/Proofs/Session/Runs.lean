import TreeShell.Backend.Memory
import TreeShell.Proofs.Command.Effect
import TreeShell.Shell.Session

/-!
# Runs of a Session

A session lives through lines, and through what happens between them: a host hides what was shown,
and the collaborators go on without the shell, so that a store may refuse today what it took
yesterday and somebody may have become an administrator. A run is a list of such actions, in any
order. Booting is one of them, and it may run a line of its own.

What a run does to the tree or to the provider it does through its lines. `trace` lists them, each
with the session it was run in, so that a statement about a run can point to the line that is
responsible and speak of the state at that moment.

What a line changes is what its command changed in the environment; the log, its hidden part and the
gallery are the session's own matter. `run_absorbs` says so once, and every statement about a line
is then read off the command's effect.

## Main definitions

* `Session.Seated`: The built-in commands, and the user's own home directory.
* `Session.SameSetting`: The part of a session that never changes is the same.
* `Session.World`: The collaborators of a session.
* `Session.Action`, `Session.act`, `Session.after`: What can happen, and what comes of it.
* `Session.landed`: A booted session before the line that it may run.
* `Session.ran`, `Session.trace`: The lines of an action and of a run.
* `Session.recorded`: A session with one more line in its log.
* `Session.demoSetup`: A setup to try things on.

## Theorems

* `Session.run_absorbs`: A line changes what its command changed, and the log.
* `Session.run_of_output`, `Session.run_of_clear`: What it records.
* `Session.ends_line`: It ends in one of the ways its words may end.
* `Session.effect_line`: What its command changed is one of the effects.
* `Session.boot_of_none`, `Session.boot_of_some`: A boot lands, and then may run a line.
* `Session.sameSetting_act`, `Session.sameSetting_after`: The setting of a session never changes.
-/

namespace TreeShell.Session

/-- The session knows the built-in commands, and its home directory is that of its user. -/
structure Seated (s : Session) : Prop where
  registry : s.registry = .builtin
  home : s.home = .home s.config.user

/-- The registry, the home directory and the configuration are the same: what a session never
    changes. -/
structure SameSetting (s s' : Session) : Prop where
  registry : s'.registry = s.registry
  home : s'.home = s.home
  config : s'.config = s.config

theorem SameSetting.refl (s : Session) : s.SameSetting s := ⟨rfl, rfl, rfl⟩

theorem SameSetting.trans {a b c : Session} (hab : a.SameSetting b) (hbc : b.SameSetting c) :
    a.SameSetting c :=
  ⟨hbc.registry.trans hab.registry, hbc.home.trans hab.home, hbc.config.trans hab.config⟩

/-- The collaborators of a session. -/
structure World where
  content : Content
  store : Store
  accounts : Accounts
  clock : Moment
  tokens : Tokens

/-- The session with other collaborators, or with the same ones in another state. -/
def amid (s : Session) (w : World) : Session :=
  { s with
    content := w.content
    store := w.store
    accounts := w.accounts
    clock := w.clock
    tokens := w.tokens }

/-- What can happen to a session. -/
inductive Action where
  | boot (hint : String)
  | line (text : String)
  | hide
  /-- The collaborators change, without the session. -/
  | outside (w : World)

/-- The session after an action. -/
def act (s : Session) : Action → Session
  | .boot hint => s.boot hint
  | .line text => (s.run text).2
  | .hide => s.hide
  | .outside w => s.amid w

/-- The session after a run. -/
def after (s : Session) (actions : List Action) : Session := actions.foldl act s

/-- Where a boot leads: the directory, and the line to run there. -/
def landing (s : Session) (hint : String) : Path × Option String :=
  arrival s.config s.home
    (s.storedTree.resolve s.home s.home (if hint = "" then s.home.text else hint))

/-- A booted session before the line that it may run. -/
def landed (s : Session) (hint : String) : Session :=
  { s with
    tree := s.storedTree
    cwd := (s.landing hint).1
    store := s.store.load.2
    history := s.history ++ [⟨"", ""⟩]
    outputs := s.outputs ++ [.text banner] }

/-- The lines that an action runs, each with the session it is run in. -/
def ran (s : Session) : Action → List (Session × String)
  | .boot hint => (s.landing hint).2.toList.map fun line => (s.landed hint, line)
  | .line text => [(s, text)]
  | .hide => []
  | .outside _ => []

/-- The lines of a run, each with the session it is run in, in order. -/
def trace (s : Session) : List Action → List (Session × String)
  | [] => []
  | action :: actions => s.ran action ++ (s.act action).trace actions

theorem after_cons (s : Session) (action : Action) (actions : List Action) :
    s.after (action :: actions) = (s.act action).after actions := rfl

/-- A boot that finds a directory has landed there. -/
theorem boot_of_none {s : Session} {hint : String} (h : (s.landing hint).2 = none) :
    s.boot hint = s.landed hint := by
  rw [landing] at h
  simp only [boot, landed, landing, h]

/-- Any other boot lands, and then runs a line. -/
theorem boot_of_some {s : Session} {hint line : String} (h : (s.landing hint).2 = some line) :
    s.boot hint = ((s.landed hint).run line).2 := by
  rw [landing] at h
  simp only [boot, landed, landing, h]

/-- The session with one more line in its log. -/
def recorded (s : Session) (entry : HistoryEntry) (output : Output) : Session :=
  { s with history := s.history ++ [entry], outputs := s.outputs ++ [output] }

/-- What a line prints is what its command gives. -/
theorem run_output (s : Session) (line : String) :
    (s.run line).1 = (s.registry.execute line s.environment).1 := by
  unfold run
  rcases s.registry.execute line s.environment with ⟨output, env⟩
  cases output with
  | clear => rfl
  | _ => rfl

/-- A line changes what its command changed, and besides that the log and the gallery. -/
theorem run_absorbs (s : Session) (line : String) : ∃ history outputs hidden gallery,
    (s.run line).2 = { s.absorb (s.registry.execute line s.environment).2 with
      history, outputs, hidden, gallery } := by
  unfold run
  rcases s.registry.execute line s.environment with ⟨output, env⟩
  -- Only the wish to clear the screen goes another way, through the log and the gallery.
  cases output with
  | clear => exact ⟨_, _, _, _, rfl⟩
  | _ => exact ⟨_, _, _, _, rfl⟩

section Lines

variable (s : Session) (line : String)

@[simp] theorem run_tree :
    (s.run line).2.tree = (s.registry.execute line s.environment).2.tree := by
  rcases s.run_absorbs line with ⟨_, _, _, _, h⟩
  rw [h]
  generalize (s.registry.execute line s.environment).2 = env
  rfl

@[simp] theorem run_cwd :
    (s.run line).2.cwd = (s.registry.execute line s.environment).2.cwd := by
  rcases s.run_absorbs line with ⟨_, _, _, _, h⟩
  rw [h]
  generalize (s.registry.execute line s.environment).2 = env
  rfl

@[simp] theorem run_accounts :
    (s.run line).2.accounts = (s.registry.execute line s.environment).2.accounts := by
  rcases s.run_absorbs line with ⟨_, _, _, _, h⟩
  rw [h]
  generalize (s.registry.execute line s.environment).2 = env
  rfl

@[simp] theorem run_traffic :
    (s.run line).2.traffic = (s.registry.execute line s.environment).2.traffic := by
  rcases s.run_absorbs line with ⟨_, _, _, _, h⟩
  rw [h]
  generalize (s.registry.execute line s.environment).2 = env
  rfl

@[simp] theorem run_content : (s.run line).2.content = s.content := by
  rcases s.run_absorbs line with ⟨_, _, _, _, h⟩
  rw [h]
  generalize (s.registry.execute line s.environment).2 = env
  rfl

/-- What a line does has one of the effects of its words. -/
theorem effect_line (hregistry : s.registry = .builtin) :
    s.environment.Effect (words line) (s.registry.execute line s.environment).2 := by
  rw [hregistry]
  exact s.environment.effect_dispatch (words line)

/-- A line ends in one of the ways its words may end, and prints what they come to. -/
theorem ends_line (hregistry : s.registry = .builtin) : ∃ result env,
    s.registry.result (words line) s.environment = (result, env) ∧
      s.registry.execute line s.environment = (.ofResult result, env) ∧
      s.environment.Ends (words line) result env := by
  have hends := s.environment.ends_result (words line)
  rcases hresult : s.registry.result (words line) s.environment with ⟨result, env⟩
  rw [← hregistry, hresult] at hends
  refine ⟨result, env, rfl, ?_, hends⟩
  rw [Registry.execute, Registry.dispatch_eq, hresult]

/-- A line is recorded with what it prints. -/
theorem run_of_output {output : Output} {env : Environment}
    (h : s.registry.execute line s.environment = (output, env)) (hclear : output ≠ .clear) :
    s.run line = (output, (s.absorb env).recorded ⟨s.prompt, line⟩ output) := by
  unfold run
  rw [h]
  cases output with
  | clear => exact absurd rfl hclear
  | _ => rfl

/-- A line that clears the screen is recorded with nothing, after everything was hidden. -/
theorem run_of_clear {env : Environment}
    (h : s.registry.execute line s.environment = (.clear, env)) :
    s.run line = (.clear, { ({ s.absorb env with
      history := s.history ++ [⟨s.prompt, line⟩] } : Session).hide with
        outputs := s.outputs ++ [.none] }) := by
  unfold run
  rw [h]
  rfl

/-- A line that prints and does nothing else is only recorded. -/
theorem run_of_text {text : String}
    (h : s.registry.execute line s.environment = (.text text, s.environment)) :
    s.run line = (.text text, s.recorded ⟨s.prompt, line⟩ (.text text)) :=
  s.run_of_output line h nofun

end Lines

theorem sameSetting_run (s : Session) (line : String) : s.SameSetting (s.run line).2 := by
  rcases s.run_absorbs line with ⟨_, _, _, _, h⟩
  -- Which environment the command left does not matter: it is not where these three come from.
  generalize (s.registry.execute line s.environment).2 = env at h
  rw [h]
  exact ⟨rfl, rfl, rfl⟩

theorem sameSetting_landed (s : Session) (hint : String) : s.SameSetting (s.landed hint) := by
  unfold landed
  generalize (s.landing hint).1 = cwd
  exact ⟨rfl, rfl, rfl⟩

/-- No action changes the setting. -/
theorem sameSetting_act (s : Session) (action : Action) : s.SameSetting (s.act action) := by
  cases action with
  | boot hint =>
      have hlanded := s.sameSetting_landed hint
      rw [act]
      cases hline : (s.landing hint).2 with
      | none =>
          rw [boot_of_none hline]
          exact hlanded
      | some line =>
          rw [boot_of_some hline]
          exact hlanded.trans ((s.landed hint).sameSetting_run line)
  | line text => exact s.sameSetting_run text
  | hide => exact ⟨rfl, rfl, rfl⟩
  | outside w => exact ⟨rfl, rfl, rfl⟩

/-- And no run does, whatever happens to the session. -/
theorem sameSetting_after (s : Session) (actions : List Action) :
    s.SameSetting (s.after actions) := by
  induction actions generalizing s with
  | nil => exact .refl s
  | cons action actions ih =>
      rw [after_cons]
      exact (s.sameSetting_act action).trans (ih (s.act action))

theorem seated_overTree (setup : Setup) (tree : Dir) : (overTree setup tree).Seated := ⟨rfl, rfl⟩

theorem SameSetting.seated {s s' : Session} (h : s.SameSetting s') (hs : s.Seated) : s'.Seated := by
  refine ⟨h.registry.trans hs.registry, ?_⟩
  rw [h.home, h.config]
  exact hs.home

/-- Storage in which the user `u` has a note and a place for repositories. -/
def demoStorage : Dir :=
  let home := Dir.ofList [("note.md", .file true), ("repositories", .dir .empty)]
  .ofList [("home", .dir (.ofList [("u", .dir home)]))]

/-- A setup to try things on: the user `u` has a note and a place for the repository `r`, which
    holds `repo`, and somebody who may rebuild the tree is signed in. -/
def demoSetup (repo : Dir) : Setup where
  config := { user := "u", repo := "r" }
  content := ((MemoryContent.ofStorage demoStorage).withRepository repo).provider
  accounts := { admins := ["root@u"], signedIn := some "root@u" }
  clock := { seconds := 0 }
  tokens := { letters := fun _ => 0 }

end TreeShell.Session
