import TreeShell.Proofs.Command.Effect

/-!
# Read-Only Words

Four commands change the shell: one the directory, one the gallery, one the screen, and one the
accounts, the tree and the store. All other words only look, those that name no command included.
They may ask for a file, and the request is recorded.

That they change nothing is read off the effects. That they do not ask for the screen to be cleared
is not, since an effect says nothing of what is printed; it is a matter of the last step of a
command's run, so `CommandM.Gives` looks at nothing else.

## Main definitions

* `ReadOnly`: Words that name none of the four commands.
* `CommandM.Gives`: What a run may come to where it does not fail.
* `Command.Stays`: A run that does not ask for the screen to be cleared.

## Theorems

* `Environment.dispatch_readOnly`: Read-only words leave everything but the traffic.
* `Environment.dispatch_ne_clear`: Only `clear` asks for the screen to be cleared.
-/

namespace TreeShell

/-- The words name none of the commands that change the shell. -/
def ReadOnly (argv : List String) : Prop :=
  ∀ name ∈ argv.head?, name ∉ ["cd", "imgcat", "clear", "taso-cli"]

instance (argv : List String) : Decidable (ReadOnly argv) := by
  unfold ReadOnly
  infer_instance

namespace CommandM

variable {α β : Type} {P : β → Prop}

/-- Where the run does not fail it comes to something that satisfies `P`. -/
def Gives (P : β → Prop) (m : CommandM β) : Prop := ∀ env b, (m.outcome env).1 = .ok b → P b

theorem gives_pure {b : β} (h : P b) : (pure b : CommandM β).Gives P := by
  rintro env _ ⟨⟩
  exact h

theorem gives_complain (command : String) (complaint : Complaint) :
    (complain command complaint : CommandM β).Gives P := by
  rintro env b ⟨⟩

/-- Only the last step of a run counts. -/
theorem gives_bind {m : CommandM α} {f : α → CommandM β} (hf : ∀ a, (f a).Gives P) :
    (m >>= f).Gives P := by
  intro env b h
  rw [outcome_bind] at h
  generalize m.outcome env = first at h
  rcases first with ⟨_ | a, after⟩
  · cases h
  · exact hf a after b h

theorem gives_modifyGet {f : Environment → β × Environment} (h : ∀ env, P (f env).1) :
    (modifyGet f : CommandM β).Gives P := by
  rintro env _ ⟨⟩
  exact h env

end CommandM

open CommandM

namespace Command

/-- The output is not the wish to clear the screen. -/
def Stays (m : CommandM Output) : Prop := m.Gives (· ≠ .clear)

theorem stays_cd (args : List String) : Stays (cd.run args) := by
  cases args with
  | nil => exact gives_bind fun _ => gives_pure (by simp)
  | cons => exact gives_bind fun _ => gives_bind fun _ => gives_bind fun _ => gives_pure (by simp)

theorem stays_ls (args : List String) : Stays (ls.run args) := by
  simp only [ls]
  split
  · exact gives_complain _ _
  · split
    · exact gives_complain _ _
    · refine gives_bind fun _ => gives_bind fun _ => ?_
      split
      · exact gives_pure (by simp)
      · exact gives_bind fun _ => gives_pure (by simp)

theorem stays_imgcat (args : List String) : Stays (imgcat.run args) := by
  refine gives_bind fun _ => gives_bind fun _ => ?_
  split
  · exact gives_bind fun _ => gives_modifyGet fun _ => by simp
  · exact gives_complain _ _

theorem stays_openLink (args : List String) : Stays (openLink.run args) := by
  refine gives_bind fun _ => gives_bind fun _ => ?_
  split
  · refine gives_bind fun _ => ?_
    dsimp only
    split
    · exact gives_complain _ _
    · exact gives_pure (by simp)
  · exact gives_complain _ _

theorem stays_share (args : List String) : Stays (share.run args) := by
  cases args with
  | nil => exact gives_bind fun _ => gives_pure (by simp)
  | cons =>
      refine gives_bind fun _ => ?_
      split
      · exact gives_complain _ _
      · exact gives_bind fun _ => gives_pure (by simp)

theorem stays_reset : Stays Account.reset := by
  refine gives_bind fun _ => ?_
  dsimp only
  split
  · refine gives_bind fun built => ?_
    cases built with
    | none => exact gives_pure (by simp)
    | some tree =>
        refine gives_bind fun _ => ?_
        split
        · exact gives_pure (by simp)
        · exact gives_complain _ _
  · exact gives_complain _ _

theorem stays_account (args : List String) : Stays (account.run args) := by
  simp only [account]
  split
  · exact gives_complain _ _
  · exact gives_bind fun _ => gives_pure (by simp)
  · exact gives_bind fun _ => gives_pure (by simp)
  · exact stays_reset
  · exact gives_complain _ _
  · exact gives_complain _ _
  · exact gives_complain _ _

/-- Only one command gives the wish to clear the screen. -/
theorem stays_of_mem {c : Command} (h : c ∈ builtins) (hname : c.name ≠ "clear")
    (args : List String) : Stays (c.run args) := by
  simp only [builtins, List.mem_cons, List.not_mem_nil, or_false] at h
  rcases h with rfl | rfl | rfl | rfl | rfl | rfl | rfl | rfl | rfl | rfl | rfl
  · exact stays_cd args
  · exact gives_bind fun _ => gives_pure (by simp)
  · exact stays_ls args
  · exact gives_bind fun _ => gives_pure (by simp)
  · exact gives_bind fun _ => gives_bind fun _ => gives_bind fun _ => gives_pure (by simp)
  · exact stays_imgcat args
  · exact gives_bind fun _ => gives_pure (by simp)
  · exact absurd rfl hname
  · exact stays_openLink args
  · exact stays_share args
  · exact stays_account args

end Command

namespace Environment

/-- Words that do not name it do not ask for the screen to be cleared. -/
theorem dispatch_ne_clear (env : Environment) {argv : List String}
    (h : argv.head? ≠ some "clear") : (Registry.builtin.dispatch argv env).1 ≠ .clear := by
  cases argv with
  | nil => simp [Registry.dispatch]
  | cons name args =>
      rw [Registry.dispatch]
      cases hfind : Registry.builtin.find? name with
      | none => simp
      | some command =>
          cases hgate : command.refusal? args with
          | some complaint => simp [hgate]
          | none =>
              rcases Registry.mem_builtins_of_find? hfind with ⟨hmem, rfl⟩
              have hstays := Command.stays_of_mem hmem (fun he => h (congrArg some he)) args env
              simp only [hgate]
              generalize (command.run args).outcome env = last at hstays ⊢
              rcases last with ⟨_ | output, after⟩
              · simp
              · exact hstays output rfl

/-- Read-only words change nothing but the traffic. -/
theorem dispatch_readOnly (env : Environment) {argv : List String} (h : ReadOnly argv) :
    ∃ traffic, (Registry.builtin.dispatch argv env).2 = { env with traffic } := by
  have hnamed {name : String} (hname : argv.head? = some name)
      (hmem : name ∈ ["cd", "imgcat", "clear", "taso-cli"]) : False := h name hname hmem
  have hreset (typed : argv = ["taso-cli", "reset"]) : False := by
    rw [typed] at h
    exact absurd h (by decide)
  have heffect := env.effect_dispatch argv
  generalize (Registry.builtin.dispatch argv env).2 = after at heffect ⊢
  cases heffect with
  | idle => exact ⟨env.traffic, rfl⟩
  | fetched cause => exact ⟨_, rfl⟩
  | moved cwd named => exact (hnamed named (by decide)).elim
  | shown gallery named cause => exact (hnamed named (by decide)).elim
  | signed accounts tokens named => exact (hnamed named (by decide)).elim
  | refused typed => exact (hreset typed).elim
  | replaced typed => exact (hreset typed).elim

end Environment

end TreeShell
