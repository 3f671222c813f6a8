import TreeShell.Proofs.Command.Ending

/-!
# Signing In and Out

Three commands touch the accounts: one sends a link, one completes the sign-in that a link has
begun, and one signs out. Each of them looks first at who is signed in, and the service then looks
at what is pending, so that what a line does depends on both. `Signs` says it once for all words,
with what is printed: the accounts are changed in one of three ways, each with what was the case
before, or they are kept.

A line that keeps them may have been meant to change them. So the fourth case carries the two
reasons that it may have had: a link was not sent because somebody was signed in or the service
refused, and a sign-in was not completed because somebody was signed in or nothing was pending. In
this way nothing has to be assumed of the service.

## Main definitions

* `Accounts.Signs`: What words may print, and what they leave of the accounts.

## Theorems

* `Environment.accounts_result`: No other command touches the accounts.
* `Environment.signs_login`, `Environment.signs_logout`: What signing in and out comes to.
* `Environment.signs_dispatch`: All words sign in one of the ways.
-/

namespace TreeShell

/-- What is printed when a link was sent. -/
def Account.linkText : String := "taso-cli: The login link was successfully sent."

/-- What is printed when a sign-in was completed. -/
def Account.welcomeText (email : String) : String := "taso-cli: Logged in as " ++ email

namespace Accounts

section Operations

variable (a : Accounts)

theorem sendLink_cases (address link : String) :
    (∃ fault, a.sendFault = some fault ∧ a.sendLink address link = (.error fault, a)) ∨
      a.sendLink address link =
        (.ok (), { a with pending := some address, sent := a.sent ++ [(address, link)] }) := by
  unfold sendLink
  split
  · rename_i fault hfault
    exact .inl ⟨fault, hfault, rfl⟩
  · exact .inr rfl

theorem complete_cases :
    (∃ fault, a.complete = (.error fault, a)) ∨
      ∃ email, a.pending = some email ∧
        a.complete = (.ok email, { a with pending := none, signedIn := some email }) := by
  unfold complete
  split
  · exact .inl ⟨_, rfl⟩
  · exact .inl ⟨_, rfl⟩
  · rename_i email _ hpending
    exact .inr ⟨email, hpending, rfl⟩

theorem signOut_cases :
    (∃ fault, a.signOut = (.error fault, a)) ∨
      a.signOut = (.ok (), { a with signedIn := none }) := by
  unfold signOut
  split
  · exact .inl ⟨_, rfl⟩
  · exact .inr rfl

end Operations

/-- What comes of the words `argv` where the accounts are `a`: what is printed, and the accounts
    after that. -/
inductive Signs (a : Accounts) (argv : List String) (output : Output) (after : Accounts) :
    Prop where
  /-- Whether or not they were meant to change the accounts, they have not. -/
  | kept
      (noLink : ∀ address, argv = ["taso-cli", "login", "--email", address] →
        output ≠ .text Account.linkText ∧ (a.signedIn = none → ∃ fault, a.sendFault = some fault))
      (noWelcome : argv = ["taso-cli", "login"] → a.signedIn = none →
        ∃ fault, a.complete.1 = .error fault)
      (leaves : after = a)
  /-- A link was sent. -/
  | linked (address link : String) (typed : argv = ["taso-cli", "login", "--email", address])
      (nobody : a.signedIn = none) (printed : output = .text Account.linkText)
      (leaves : after = { a with pending := some address, sent := a.sent ++ [(address, link)] })
  /-- The pending sign-in was completed. -/
  | entered (email : String) (typed : argv = ["taso-cli", "login"]) (nobody : a.signedIn = none)
      (begun : a.pending = some email) (printed : output = .text (Account.welcomeText email))
      (leaves : after = { a with pending := none, signedIn := some email })
  /-- Somebody signed out. -/
  | left (typed : argv = ["taso-cli", "logout"]) (leaves : after = { a with signedIn := none })

/-- Words that are not about signing in have nothing to explain. -/
theorem Signs.ofOther {a : Accounts} {argv : List String} (output : Output)
    (h : ∀ options, argv ≠ "taso-cli" :: "login" :: options) : a.Signs argv output a :=
  .kept (fun address typed => absurd typed (h ["--email", address]))
    (fun typed => absurd typed (h [])) rfl

end Accounts

/-- Whoever is signed in is not told that a link was sent. -/
theorem Account.ne_linkText_of_signedIn (email : String) :
    say ("Already logged in as " ++ email) ≠ linkText := by
  intro h
  have hletters := congrArg String.toList h
  simp [say, name, linkText] at hletters

namespace Environment

/-- Only one command touches the accounts, and not when it rebuilds. -/
theorem accounts_result (env : Environment) {argv : List String}
    (h : argv.head? ≠ some "taso-cli" ∨ argv = ["taso-cli", "reset"]) :
    (Registry.builtin.result argv env).2.accounts = env.accounts := by
  have hends := env.ends_result argv
  generalize Registry.builtin.result argv env = last at hends ⊢
  rcases last with ⟨result, after⟩
  cases hends with
  | signed text accounts tokens named other =>
      rcases h with h | h
      · exact absurd named h
      · exact absurd h other
  | _ => rfl

section Commands

variable (env : Environment)

/-- Signing in. -/
theorem signs_login (options : List String) :
    env.accounts.Signs ("taso-cli" :: "login" :: options)
      (.ofResult (((Account.login options).outcome env).1.map .text))
      ((Account.login options).outcome env).2.accounts := by
  simp only [Account.login, CommandM.outcome_bind, CommandM.outcome_get]
  split
  · -- Whoever is signed in is told so, and that is not what is printed for a link.
    rename_i email hsomebody
    refine .kept (fun address _ => ⟨fun h => ?_, fun hnobody => ?_⟩) (fun _ hnobody => ?_) rfl
    · exact Account.ne_linkText_of_signedIn email (Output.text.inj h)
    · rw [hnobody] at hsomebody
      cases hsomebody
    · rw [hnobody] at hsomebody
      cases hsomebody
  · rename_i hnobody
    split
    · simp only [CommandM.outcome_bind, CommandM.outcome_account]
      rcases env.accounts.complete_cases with ⟨fault, hcomplete⟩ | ⟨email, hbegun, hcomplete⟩
      · rw [hcomplete]
        exact .kept (fun _ typed => by cases typed) (fun _ _ => ⟨fault, by rw [hcomplete]⟩) rfl
      · rw [hcomplete]
        exact .entered email rfl hnobody hbegun rfl rfl
    · exact .kept (fun _ typed => by cases typed) (fun typed => by cases typed) rfl
    · rename_i address
      simp only [CommandM.outcome_bind, CommandM.outcome_modifyGet, CommandM.outcome_get,
        CommandM.outcome_account]
      rcases env.accounts.sendLink_cases address
        (Account.loginLink env.config env.cwd env.tokens.draw.1) with ⟨fault, hfault, hsend⟩ | hsend
      · have hfailed : Output.text (CommandError.message ⟨"taso-cli", .failed⟩) ≠
            .text Account.linkText := by decide
        rw [hsend]
        exact .kept (fun _ _ => ⟨hfailed, fun _ => ⟨fault, hfault⟩⟩) (fun typed => by cases typed)
          rfl
      · rw [hsend]
        exact .linked address _ rfl hnobody rfl rfl
    · rename_i option rest hempty hother
      refine .kept (fun address typed => ?_) (fun typed => by cases typed) rfl
      simp only [List.cons.injEq, true_and] at typed
      exact absurd typed.2 (hother address typed.1)

/-- Signing out. -/
theorem signs_logout :
    env.accounts.Signs ["taso-cli", "logout"] (.ofResult ((Account.logout.outcome env).1.map .text))
      (Account.logout.outcome env).2.accounts := by
  simp only [Account.logout, CommandM.outcome_bind, CommandM.outcome_get]
  split
  · exact .ofOther _ (by simp)
  · simp only [CommandM.outcome_bind, CommandM.outcome_account]
    rcases env.accounts.signOut_cases with ⟨fault, hout⟩ | hout
    · rw [hout]
      exact .ofOther _ (by simp)
    · rw [hout]
      exact .left rfl rfl

/-- The command, unless it rebuilds. -/
theorem signs_account {args : List String} (hother : args ≠ ["reset"]) :
    env.accounts.Signs ("taso-cli" :: args) (.ofResult ((Command.account.run args).outcome env).1)
      ((Command.account.run args).outcome env).2.accounts := by
  simp only [Command.account]
  split
  · exact .ofOther _ (by simp)
  · rw [outcome_say]
    exact env.signs_login _
  · rw [outcome_say]
    exact env.signs_logout
  · exact absurd rfl hother
  · exact .ofOther _ (by simp)
  · exact .ofOther _ (by simp)
  · rename_i part rest hlogin _ _ _ _
    exact .ofOther _ fun options typed => hlogin (List.cons.inj (List.cons.inj typed).2).1

end Commands

/-- All words sign in one of the ways. -/
theorem signs_dispatch (env : Environment) (argv : List String) :
    env.accounts.Signs argv (Registry.builtin.dispatch argv env).1
      (Registry.builtin.dispatch argv env).2.accounts := by
  by_cases hkept : argv.head? ≠ some "taso-cli" ∨ argv = ["taso-cli", "reset"]
  · rw [Registry.dispatch_eq, env.accounts_result hkept]
    refine .ofOther _ fun options typed => ?_
    rw [typed] at hkept
    simp at hkept
  · rw [not_or, Decidable.not_not] at hkept
    rcases hkept with ⟨hname, hother⟩
    cases argv with
    | nil => cases hname
    | cons name args =>
        obtain rfl : name = "taso-cli" := Option.some.inj hname
        have hreset : args ≠ ["reset"] := fun h => hother (congrArg _ h)
        cases hgate : Command.account.refusal? args with
        | none =>
            rw [Registry.dispatch_accepted (c := .account) rfl hgate]
            exact env.signs_account hreset
        | some complaint =>
            -- The gate only turns away what is no way to sign in.
            rw [Registry.dispatch, show Registry.builtin.find? "taso-cli" = some .account from rfl]
            simp only [hgate]
            refine .kept (fun address typed => ?_) (fun typed => ?_) rfl
            · rw [(List.cons.inj typed).2] at hgate
              cases hgate
            · rw [(List.cons.inj typed).2] at hgate
              cases hgate

end Environment

end TreeShell
