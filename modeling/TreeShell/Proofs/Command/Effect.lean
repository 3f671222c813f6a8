import TreeShell.Proofs.Command.Ending

/-!
# What a Line Can Do

Of what words come to, most statements need only what they leave behind. `Effect` says once and for
all what words can do to an environment: nothing, move the working directory, ask for the contents
of one file, change who is signed in, or rebuild the tree. Each possibility carries what must have
been the case for it to come about, so a statement about all lines looks at these few possibilities
and never at the commands, and whether the words failed does not matter to it.

## Main definitions

* `Environment.Effect`: What words can do to an environment.

## Theorems

* `Environment.Ends.effect`: However words end, they have one of the effects.
* `Environment.effect_dispatch`: Every line has one.
* `Environment.dispatch_fetches`: Words that fetch make exactly their one request.
-/

namespace TreeShell

namespace Environment

/-- What the words `argv` can do to an environment. -/
inductive Effect (env : Environment) (argv : List String) : Environment → Prop where
  | idle : env.Effect argv env
  | moved (cwd : Path) (named : argv.head? = some "cd") : env.Effect argv { env with cwd }
  | fetched {path : Path} {r : Request} (cause : env.Fetches argv path r) :
      env.Effect argv (env.asked r)
  | shown {path : Path} {r : Request} (gallery : Gallery) (named : argv.head? = some "imgcat")
      (cause : env.Fetches argv path r) : env.Effect argv { env.asked r with gallery }
  | signed (accounts : Accounts) (tokens : Tokens) (named : argv.head? = some "taso-cli")
      (other : argv ≠ ["taso-cli", "reset"]) : env.Effect argv { env with accounts, tokens }
  | refused {traffic : Traffic} (typed : argv = ["taso-cli", "reset"])
      (admin : env.accounts.AdminSignedIn) (built : env.Builds none traffic) :
      env.Effect argv { env with traffic }
  | replaced {tree : Dir} {traffic : Traffic} (typed : argv = ["taso-cli", "reset"])
      (admin : env.accounts.AdminSignedIn) (built : env.Builds (some tree) traffic) :
      env.Effect argv { env with
        traffic, tree, store := (env.store.save tree.snapshot).2 }

/-- What an ending leaves behind is one of the effects. -/
theorem Ends.effect {env env' : Environment} {argv : List String}
    {result : Except CommandError Output} (h : env.Ends argv result env') :
    env.Effect argv env' := by
  cases h with
  | failed error => exact .idle
  | unanswered error cause => exact .fetched cause
  | unsent error tokens named other => exact .signed env.accounts tokens named other
  | unbuilt error typed admin built => exact .refused typed admin built
  | unsaved error typed admin built refusal =>
      have hreplaced := Effect.replaced typed admin built
      rw [Store.save_refused refusal] at hreplaced
      exact hreplaced
  | endless typed admin unending => exact .idle
  | looked plain => exact .idle
  | moved cwd named => exact .moved cwd named
  | fetched plain cause => exact .fetched cause
  | shown image named cause => exact .shown _ named cause
  | signed text accounts tokens named other => exact .signed accounts tokens named other
  | saved text typed admin built accepted =>
      have hreplaced := Effect.replaced typed admin built
      rw [Store.save_accepted accepted] at hreplaced
      exact hreplaced

/-- Every line has one of the effects. -/
theorem effect_dispatch (env : Environment) (argv : List String) :
    env.Effect argv (Registry.builtin.dispatch argv env).2 := by
  rw [Registry.dispatch_eq]
  exact (env.ends_result argv).effect

/-- Words that fetch make their one request, and no other. -/
theorem dispatch_fetches {env : Environment} {argv : List String} {path : Path} {r : Request}
    (h : env.Fetches argv path r) : (Registry.builtin.dispatch argv env).2.traffic =
      (env.content.ask r env.traffic).2 := by
  rw [Registry.dispatch_eq]
  rcases h with ⟨operand, rfl, hnames, rfl⟩ |
    ⟨operand, extension, rfl, hnames, hsuffix, hshows, rfl⟩ | ⟨operand, rfl, hnames, hsuffix, rfl⟩
  · rw [Registry.result_operand (c := .cat) rfl (Nat.le_refl _) (Nat.le_refl _) hnames.plain]
    rcases outcome_cat hnames.found with ⟨result, _, hrun⟩
    rw [hrun]
    rfl
  · rw [Registry.result_operand (c := .imgcat) rfl (Nat.le_refl _) (Nat.le_refl _) hnames.plain]
    rcases outcome_imgcat hnames.found hsuffix hshows with ⟨error, hrun⟩ | ⟨image, hrun⟩
    · rw [hrun]
      rfl
    · rw [hrun]
      rfl
  · rw [Registry.result_operand (c := .openLink) rfl (Nat.le_refl _) (Nat.le_refl _) hnames.plain]
    rcases outcome_openLink hnames.found hsuffix with ⟨result, _, hrun⟩
    rw [hrun]
    rfl

end Environment

end TreeShell
