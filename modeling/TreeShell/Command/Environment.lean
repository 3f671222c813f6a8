import TreeShell.Backend.Content
import TreeShell.Command.Error
import TreeShell.Command.Output
import TreeShell.Config.Basic
import TreeShell.Service.Accounts
import TreeShell.Service.Moment
import TreeShell.Service.Store
import TreeShell.Shell.History
import TreeShell.Tree.Lookup

/-!
# What Commands Work On

A command sees the whole shell and may change any of it. It either gives an output or fails with a
line to print; a command that fails keeps the changes it made before, because a rebuilt tree stays
in place even where it could not be saved.

## Main definitions

* `Tokens`: The supply of characters for login links.
* `Environment`: The shell as a command sees it.
* `CommandM`: A command's run.
* `CommandM.outcome`: What a run comes to from an environment.

## Theorems

* `CommandM.outcome_bind`: A run that goes on after another one goes on from where that one ended,
  unless it failed.
* `CommandM.outcome_consult`, `CommandM.outcome_demand`, `CommandM.outcome_account`: A collaborator's
  answer is the answer, and only the collaborator's own part of the environment changes.
-/

namespace TreeShell

/-- The supply of characters for login links: an endless sequence, and how much of it is used. -/
structure Tokens where
  letters : Nat → Fin 62
  used : Nat := 0

namespace Tokens

/-- The characters of a token: digits and the letters of both cases. -/
def letter (i : Fin 62) : Char :=
  if i.val < 26 then Char.ofNat (0x41 + i.val)
  else if i.val < 52 then Char.ofNat (0x61 + (i.val - 26))
  else Char.ofNat (0x30 + (i.val - 52))

/-- How many characters a token has. -/
def length : Nat := 64

/-- Take a token from the supply. -/
def draw (t : Tokens) : String × Tokens :=
  (String.ofList ((List.range length).map fun i => letter (t.letters (t.used + i))),
    { t with used := t.used + length })

end Tokens

/-- The shell as a command sees it. -/
structure Environment where
  /-- The working directory. -/
  cwd : Path
  /-- The user's home directory. -/
  home : Path
  tree : Dir
  config : Config
  content : Content
  traffic : Traffic := {}
  store : Store := {}
  accounts : Accounts := {}
  clock : Moment
  /-- The lines recorded before the running one. -/
  history : List HistoryEntry := []
  gallery : Gallery := {}
  tokens : Tokens

/-- Where the repository hangs. -/
def Environment.repoRoot (env : Environment) : Path :=
  (env.home.child "repositories").child env.config.repo

/-- The run of a command. Its changes remain when it fails. -/
abbrev CommandM := ExceptT CommandError (StateM Environment)

namespace CommandM

/-- What a run comes to: a value or a line to print, and the environment it leaves. -/
def outcome {α : Type} (m : CommandM α) (env : Environment) :
    Except CommandError α × Environment :=
  Id.run (StateT.run (ExceptT.run m) env)

/-- Fail on behalf of a command. -/
def complain {α : Type} (command : String) (complaint : Complaint) : CommandM α :=
  throw ⟨command, complaint⟩

/-- Make a request, or several, and go on with whatever comes back. -/
def consult {α : Type} (requests : Asking Traffic α) : CommandM (Except Fault α) :=
  modifyGet fun env =>
    let (answer, traffic) := requests env.traffic
    (answer, { env with traffic })

/-- The same, where a refusal makes the command fail. -/
def demand {α : Type} (command : String) (requests : Asking Traffic α) : CommandM α := do
  match ← consult requests with
  | .ok answer => return answer
  | .error _ => complain command .failed

/-- Use the sign-in service, where a refusal makes the command fail. -/
def account {α : Type} (command : String) (use : Accounts → Except Fault α × Accounts) :
    CommandM α := do
  let outcome ← modifyGet fun env =>
    let (outcome, accounts) := use env.accounts
    (outcome, { env with accounts })
  match outcome with
  | .ok value => return value
  | .error _ => complain command .failed

/-- Look up a typed path. -/
def locate (input : String) : CommandM Resolved := do
  let env ← get
  return env.tree.resolve env.cwd env.home input

@[simp] theorem outcome_pure {α : Type} (a : α) (env : Environment) :
    (pure a : CommandM α).outcome env = (.ok a, env) := rfl

@[simp] theorem outcome_get (env : Environment) :
    (get : CommandM Environment).outcome env = (.ok env, env) := rfl

@[simp] theorem outcome_modify (f : Environment → Environment) (env : Environment) :
    (modify f : CommandM PUnit).outcome env = (.ok ⟨⟩, f env) := rfl

@[simp] theorem outcome_modifyGet {α : Type} (f : Environment → α × Environment)
    (env : Environment) : (modifyGet f : CommandM α).outcome env = (.ok (f env).1, (f env).2) := rfl

@[simp] theorem outcome_complain {α : Type} (command : String) (complaint : Complaint)
    (env : Environment) :
    (complain command complaint : CommandM α).outcome env = (.error ⟨command, complaint⟩, env) := rfl

@[simp] theorem outcome_liftM {α : Type} (e : Except CommandError α) (env : Environment) :
    (liftM e : CommandM α).outcome env = (e, env) := by
  cases e <;> rfl

/-- A run that goes on after another one goes on from where that one ended, unless it failed. -/
@[simp] theorem outcome_bind {α β : Type} (m : CommandM α) (f : α → CommandM β)
    (env : Environment) :
    (m >>= f).outcome env = match m.outcome env with
      | (.ok a, env) => (f a).outcome env
      | (.error e, env) => (.error e, env) := by
  rcases h : m.outcome env with ⟨e | a, env'⟩
  all_goals
    simp only [outcome, ExceptT.run_bind, StateT.run_bind] at h ⊢
    simp only [Id.run] at h ⊢
    rw [h]
    rfl

@[simp] theorem outcome_locate (input : String) (env : Environment) :
    (locate input).outcome env = (.ok (env.tree.resolve env.cwd env.home input), env) := rfl

@[simp] theorem outcome_consult {α : Type} (requests : Asking Traffic α) (env : Environment) :
    (consult requests).outcome env =
      (.ok (requests env.traffic).1, { env with traffic := (requests env.traffic).2 }) := rfl

/-- A refused request makes the command fail, and is recorded all the same. -/
@[simp] theorem outcome_demand {α : Type} (command : String) (requests : Asking Traffic α)
    (env : Environment) :
    (demand command requests).outcome env =
      ((requests env.traffic).1.mapError fun _ => ⟨command, .failed⟩,
        { env with traffic := (requests env.traffic).2 }) := by
  rw [demand, outcome_bind, outcome_consult]
  cases (requests env.traffic).1 <;> rfl

@[simp] theorem outcome_account {α : Type} (command : String)
    (use : Accounts → Except Fault α × Accounts) (env : Environment) :
    (account command use).outcome env =
      ((use env.accounts).1.mapError fun _ => ⟨command, .failed⟩,
        { env with accounts := (use env.accounts).2 }) := by
  rw [account, outcome_bind, outcome_modifyGet]
  rcases (use env.accounts).1 with _ | _ <;> rfl

end CommandM

namespace Resolved

/-- The readable directory that was found, or the complaint about `name`. -/
def requireDir (command name : String) (r : Resolved) : Except CommandError Dir :=
  match r.node with
  | some (.dir entries) => .ok entries
  | some .denied => .error ⟨command, .denied name⟩
  | some (.file _) => .error ⟨command, .notDirectory name⟩
  | none => .error ⟨command, .absent name⟩

/-- Nothing where a readable file was found, else the complaint about `name`. -/
def requireFile (command name : String) (r : Resolved) : Except CommandError Unit :=
  match r.node with
  | some (.file true) => .ok ()
  | some (.file false) => .error ⟨command, .denied name⟩
  | some .denied => .error ⟨command, .denied name⟩
  | some (.dir _) => .error ⟨command, .isDirectory name⟩
  | none => .error ⟨command, .absent name⟩

end Resolved

end TreeShell
