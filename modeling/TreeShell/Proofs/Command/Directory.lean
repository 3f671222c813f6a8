import TreeShell.Proofs.Command.Ending
import TreeShell.Proofs.Path.Printed

/-!
# Moving and Looking Around

Of all commands only `cd` moves, and it moves home or to a directory that it has found. Where it
finds none it fails, and then it has not moved either. So whatever the working directory is after a
line, it is the old one or one that is described by the tree and by what was typed; there is no
third way, and no need to look at a command again to see it.

The way home is not checked. A bare `cd` goes there even where a rebuild has left nothing there, so
the home directory is the one place where a user may stand that the tree does not know.

A bare `ls` reads the working directory back from its printed form. For a directory that can be
typed this comes to the directory itself.

## Main definitions

* `Resolved.obstacle?`: Why what was found cannot be entered.
* `Environment.Enters`: The directories that `cd` may enter.

## Theorems

* `Dir.exists_dirAt?_of_follow`: What is reached without a denial stands in a readable directory.
* `Environment.Enters.ordinary`: From ordinary directories one only gets to ordinary ones.
* `Environment.result_cd`: `cd` fails where it stands, or enters one of the directories.
* `Environment.result_cd_entered`, `Environment.result_cd_refused`: What `cd` makes of an operand.
* `Environment.cwd_result`: No other words move.
* `Environment.result_ls`: A bare `ls` lists the working directory.
-/

namespace TreeShell

/-- What is reached without being denied stands in a readable directory: a file has nothing below
    it, and a denied directory answers with a denial. -/
theorem Dir.exists_dirAt?_of_follow {root : Dir} {above rest : List String} {name : String}
    {node : Node} (h : root.follow (above ++ name :: rest) = some node) (hnode : node ≠ .denied) :
    ∃ entries, root.dirAt? above = some entries := by
  rw [follow, Node.follow_append, Option.bind_eq_some_iff] at h
  rcases h with ⟨middle, hmiddle, hrest⟩
  cases middle with
  | dir entries => exact ⟨entries, dirAt?_eq_some_iff.2 hmiddle⟩
  | denied =>
      rw [Node.follow_denied, Option.some.injEq] at hrest
      exact absurd hrest.symm hnode
  | file => cases hrest

/-- Why what was found cannot be entered, if it cannot: the complaint, but for the name in it. -/
def Resolved.obstacle? (r : Resolved) : Option (String → Complaint) :=
  match r.node with
  | some (.dir _) => none
  | some .denied => some .denied
  | some (.file _) => some .notDirectory
  | none => some .absent

/-- An obstacle is one of three. -/
theorem Resolved.obstacle?_cases {r : Resolved} {kind : String → Complaint}
    (h : r.obstacle? = some kind) :
    kind = .absent ∨ kind = .denied ∨ kind = .notDirectory := by
  rcases r with ⟨_ | entries | _ | _, path⟩
  · exact .inl (Option.some.inj h).symm
  · cases h
  · exact .inr (.inl (Option.some.inj h).symm)
  · exact .inr (.inr (Option.some.inj h).symm)

/-- What has no obstacle is a readable directory. -/
theorem Resolved.obstacle?_eq_none_iff {r : Resolved} :
    r.obstacle? = none ↔ ∃ entries, r.node = some (.dir entries) := by
  rcases r with ⟨node, path⟩
  constructor
  · intro h
    rcases node with _ | entries | _ | _
    · cases h
    · exact ⟨entries, rfl⟩
    · cases h
    · cases h
  · rintro ⟨entries, hnode⟩
    rw [obstacle?, hnode]

/-- The obstacle is what is complained about. -/
theorem Resolved.requireDir_of_obstacle {r : Resolved} {kind : String → Complaint}
    (h : r.obstacle? = some kind) (command name : String) :
    r.requireDir command name = .error ⟨command, kind name⟩ := by
  rcases r with ⟨_ | entries | _ | _, path⟩
  · rw [← Option.some.inj h]
    rfl
  · cases h
  · rw [← Option.some.inj h]
    rfl
  · rw [← Option.some.inj h]
    rfl

/-- A readable directory is handed on, and anything else is complained about. -/
theorem Resolved.requireDir_cases (command name : String) (r : Resolved) :
    (∃ entries, r.node = some (.dir entries) ∧ r.requireDir command name = .ok entries) ∨
      ∃ e, r.requireDir command name = .error e := by
  rcases r with ⟨node, path⟩
  rcases node with _ | entries | _ | _
  · exact .inr ⟨_, rfl⟩
  · exact .inl ⟨entries, rfl, rfl⟩
  · exact .inr ⟨_, rfl⟩
  · exact .inr ⟨_, rfl⟩

namespace Environment

/-- The directories that `cd` may enter: home, whatever the tree has there, and a readable directory
    that an operand names. -/
inductive Enters (env : Environment) : Path → Prop where
  | home : env.Enters env.home
  | typed (operand : String) {entries : Dir}
      (found : env.tree.dirAt? (Path.normalize env.cwd env.home operand).segments = some entries) :
      env.Enters (Path.normalize env.cwd env.home operand)

/-- From ordinary directories one only gets to ordinary ones. -/
theorem Enters.ordinary {env : Environment} {cwd : Path} (h : env.Enters cwd)
    (hcwd : env.cwd.Ordinary) (hhome : env.home.Ordinary) : cwd.Ordinary := by
  cases h with
  | home => exact hhome
  | typed operand => exact Path.normalize_ordinary hcwd.slash_notMem hhome.slash_notMem operand

section Commands

variable (env : Environment)

/-- `cd` fails where it stands, or enters one of the directories. -/
theorem outcome_cd (args : List String) :
    (∃ e, (Command.cd.run args).outcome env = (.error e, env)) ∨
      ∃ cwd, env.Enters cwd ∧
        (Command.cd.run args).outcome env = (.ok .none, { env with cwd }) := by
  cases args with
  | nil => exact .inr ⟨env.home, .home, rfl⟩
  | cons target rest =>
      simp only [Command.cd, CommandM.outcome_bind, CommandM.outcome_locate, CommandM.outcome_liftM]
      rcases Resolved.requireDir_cases "cd" target (env.tree.resolve env.cwd env.home target) with
        ⟨entries, hnode, hok⟩ | ⟨e, herror⟩
      · rw [hok]
        exact .inr ⟨_, .typed target (Dir.dirAt?_eq_some_iff.2 hnode), rfl⟩
      · rw [herror]
        exact .inl ⟨e, rfl⟩

/-- So do words that name it, if they get past the gate. -/
theorem result_cd {argv : List String} (hname : argv.head? = some "cd") :
    (∃ e, Registry.builtin.result argv env = (.error e, env)) ∨
      ∃ cwd, env.Enters cwd ∧ Registry.builtin.result argv env = (.ok .none, { env with cwd }) := by
  cases argv with
  | nil => cases hname
  | cons name args =>
      obtain rfl : name = "cd" := Option.some.inj hname
      rw [Registry.result, show Registry.builtin.find? "cd" = some .cd from rfl]
      cases hgate : Command.cd.refusal? args with
      | some complaint =>
          simp only [hgate]
          exact .inl ⟨_, rfl⟩
      | none =>
          simp only [hgate]
          exact env.outcome_cd args

section Operand

variable {operand : String} (hplain : isOption operand = false)

include hplain

/-- An operand that is no option gets past the gate of `cd`. -/
theorem result_cd_operand :
    Registry.builtin.result ["cd", operand] env = (Command.cd.run [operand]).outcome env :=
  Registry.result_operand (c := .cd) rfl (Nat.zero_le _) (Nat.le_refl _) hplain env

/-- If it names a readable directory, `cd` enters that. -/
theorem result_cd_entered
    (h : (env.tree.resolve env.cwd env.home operand).obstacle? = none) :
    Registry.builtin.result ["cd", operand] env =
      (.ok .none, { env with cwd := Path.normalize env.cwd env.home operand }) := by
  rcases Resolved.obstacle?_eq_none_iff.1 h with ⟨entries, hnode⟩
  have hdir : (env.tree.resolve env.cwd env.home operand).requireDir "cd" operand =
      .ok entries := by
    rw [Resolved.requireDir, hnode]
  rw [env.result_cd_operand hplain]
  simp only [Command.cd, CommandM.outcome_bind, CommandM.outcome_locate, CommandM.outcome_liftM,
    hdir]
  rfl

/-- If it names anything else, `cd` complains about the operand as it was typed. -/
theorem result_cd_refused {kind : String → Complaint}
    (h : (env.tree.resolve env.cwd env.home operand).obstacle? = some kind) :
    Registry.builtin.result ["cd", operand] env = (.error ⟨"cd", kind operand⟩, env) := by
  rw [env.result_cd_operand hplain]
  simp only [Command.cd, CommandM.outcome_bind, CommandM.outcome_locate, CommandM.outcome_liftM,
    Resolved.requireDir_of_obstacle h]

end Operand

/-- No other words move. -/
theorem cwd_result {argv : List String} (hname : argv.head? ≠ some "cd") :
    (Registry.builtin.result argv env).2.cwd = env.cwd := by
  have hends := env.ends_result argv
  generalize Registry.builtin.result argv env = last at hends ⊢
  rcases last with ⟨result, after⟩
  cases hends with
  | moved cwd named => exact absurd named hname
  | _ => rfl

/-- A bare `ls` lists the working directory, where that is a readable one. -/
theorem result_ls (hcwd : env.cwd.Ordinary) {entries : Dir}
    (h : env.tree.dirAt? env.cwd.segments = some entries) :
    Registry.builtin.result ["ls"] env = (.ok (.files (entries.shown false)), env) := by
  -- The directory is found again under its printed form.
  have hfound : env.tree.resolve env.cwd env.home env.cwd.text =
      ⟨some (.dir entries), env.cwd⟩ := by
    rw [Dir.resolve, Path.normalize_text hcwd, Dir.dirAt?_eq_some_iff.1 h]
  have hrun : Registry.builtin.result ["ls"] env = (Command.ls.run []).outcome env := rfl
  rw [hrun]
  -- No word is an option, and none an operand.
  have hwords : [].partition isOption = ([], []) := rfl
  simp only [Command.ls, hwords, List.length_nil, List.find?_nil, List.headD_nil]
  rw [if_neg (Nat.not_lt_zero 1)]
  simp only [CommandM.outcome_bind, CommandM.outcome_get, CommandM.outcome_locate, hfound]
  rfl

end Commands

end Environment

end TreeShell
