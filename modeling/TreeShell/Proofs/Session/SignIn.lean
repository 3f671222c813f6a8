import TreeShell.Proofs.Command.SignIn
import TreeShell.Proofs.Session.Runs

/-!
# Signing In over a Run

A link is sent in one line and used in another, with any number of lines between them: attempts that
fail, a second link to another address, somebody who is already signed in. The state that ties the
two together is in the sign-in service, and the guard that keeps them in order is in the command.
What must not happen is that an old link, or one that was used before, lets somebody in.

`Carries` follows the accounts along the lines of a run. Between two lines nothing touches them as
long as the collaborators are left alone, so the accounts after one line are those before the next.
A line takes one of four steps, and the invariants are inductions on the lines with one case for
each step. The central one is `Carries.pending_iff`: what is pending is what can be read off the
lines, namely the address of the last link, if no sign-in came after it.

## Main definitions

* `Session.linkedAddress?`: The address to which a line has sent a link.
* `Session.SignsIn`: A line has signed somebody in.
* `Session.Awaits`: The lines have begun a sign-in that is not completed.
* `Session.Steps`: What a line does to the accounts.
* `Session.Carries`: Accounts followed along lines.

## Theorems

* `Session.steps_run`: A line takes one of four steps.
* `Session.signsIn_iff`: When a sign-in is completed, and for whom.
* `Session.Carries.exclusive`, `Session.Carries.pending_iff`, `Session.Carries.sent`: What holds of
  the accounts after any lines.
* `Session.Awaits.begun_since`: A sign-in is completed once.
* `Session.carries_after`: A run carries the accounts along its lines.
* `Session.signIn_protocol`: All of this together.
-/

namespace TreeShell.Session

/-- The address to which the line has sent a link. -/
def linkedAddress? (t : Session) (line : String) : Option String :=
  match words line with
  | ["taso-cli", "login", "--email", address] =>
    if (t.run line).1 = .text Account.linkText then some address else none
  | _ => none

/-- The line is a bare `taso-cli login` at which nobody is signed in, and it signs `email` in. -/
def SignsIn (t : Session) (line email : String) : Prop :=
  words line = ["taso-cli", "login"] ∧ t.accounts.signedIn = none ∧
    (t.run line).2.accounts.signedIn = some email

/-- A link was sent to `email`, and after that no other one was, and nobody has signed in. -/
def Awaits (lines : List (Session × String)) (email : String) : Prop :=
  ∃ before t begun since, lines = before ++ (t, begun) :: since ∧
    t.linkedAddress? begun = some email ∧
    ∀ u line, (u, line) ∈ since → u.linkedAddress? line = none ∧ ∀ other, ¬u.SignsIn line other

/-- What the line may do to the accounts, and what it was then. -/
inductive Steps (t : Session) (line : String) (after : Accounts) : Prop where
  | kept (noLink : t.linkedAddress? line = none) (noWelcome : ∀ email, ¬t.SignsIn line email)
      (leaves : after = t.accounts)
  | linked {address : String} (link : String) (sends : t.linkedAddress? line = some address)
      (noWelcome : ∀ email, ¬t.SignsIn line email) (nobody : t.accounts.signedIn = none)
      (leaves : after = { t.accounts with
        pending := some address
        sent := t.accounts.sent ++ [(address, link)] })
  | entered {email : String} (noLink : t.linkedAddress? line = none)
      (enters : t.SignsIn line email)
      (leaves : after = { t.accounts with
        pending := none
        signedIn := some email })
  | left (noLink : t.linkedAddress? line = none) (noWelcome : ∀ email, ¬t.SignsIn line email)
      (leaves : after = { t.accounts with signedIn := none })

/-- The lines carry the accounts `a` to others: the first line begins with `a`, and every other one
    with what the line before it has left. -/
inductive Carries (a : Accounts) : List (Session × String) → Accounts → Prop where
  | nil : Carries a [] a
  | concat {lines : List (Session × String)} {t : Session} (earlier : Carries a lines t.accounts)
      (registry : t.registry = .builtin) (line : String) :
      Carries a (lines ++ [(t, line)]) (t.run line).2.accounts

theorem linkedAddress?_eq_some_iff {t : Session} {line address : String} :
    t.linkedAddress? line = some address ↔
      words line = ["taso-cli", "login", "--email", address] ∧
        (t.run line).1 = .text Account.linkText := by
  unfold linkedAddress?
  split
  · rename_i other hline
    rw [hline]
    split
    · rename_i hprinted
      simp [hprinted]
    · rename_i hprinted
      simp [hprinted]
  · rename_i hother
    exact ⟨nofun, fun h => absurd h.1 (hother address)⟩

theorem linkedAddress?_eq_none_iff {t : Session} {line : String} :
    t.linkedAddress? line = none ↔
      ∀ address, words line = ["taso-cli", "login", "--email", address] →
        (t.run line).1 ≠ .text Account.linkText := by
  rw [Option.eq_none_iff_forall_ne_some]
  simp only [Ne, linkedAddress?_eq_some_iff, not_and]

/-- No line both sends a link and signs in. -/
theorem linkedAddress?_of_signsIn {t : Session} {line email : String} (h : t.SignsIn line email) :
    t.linkedAddress? line = none :=
  linkedAddress?_eq_none_iff.2 fun _ hline => absurd (h.1.symm.trans hline) (by simp)

section Line

variable {t : Session} (h : t.registry = .builtin) (line : String)

include h

/-- A line signs in one of the ways of its words. -/
theorem signs_run :
    t.accounts.Signs (words line) (t.run line).1 (t.run line).2.accounts := by
  have haccounts : t.environment.accounts = t.accounts := by rw [environment]
  rw [run_output, run_accounts, h, Registry.execute, ← haccounts]
  exact t.environment.signs_dispatch (words line)

/-- So it takes one of the steps. -/
theorem steps_run : t.Steps line (t.run line).2.accounts := by
  cases signs_run h line with
  | kept noLink noWelcome leaves =>
      refine .kept (linkedAddress?_eq_none_iff.2 fun address hline => (noLink address hline).1)
        (fun email ⟨_, hnobody, hsomebody⟩ => ?_) leaves
      -- Somebody would have to be signed in by accounts that are as before.
      rw [leaves, hnobody] at hsomebody
      cases hsomebody
  | linked address link typed nobody printed leaves =>
      refine .linked link (linkedAddress?_eq_some_iff.2 ⟨typed, printed⟩) (fun email hsigns => ?_)
        nobody leaves
      exact absurd (hsigns.1.symm.trans typed) (by simp)
  | entered email typed nobody begun printed leaves =>
      have henters : t.SignsIn line email := ⟨typed, nobody, by rw [leaves]⟩
      exact .entered (linkedAddress?_of_signsIn henters) henters leaves
  | left typed leaves =>
      refine .left (linkedAddress?_eq_none_iff.2 fun address hline => ?_) (fun email hsigns => ?_)
        leaves
      · exact absurd (typed.symm.trans hline) (by simp)
      · exact absurd (typed.symm.trans hsigns.1) (by simp)

/-- A sign-in is completed exactly where one is pending and nobody is signed in, if the service does
    not refuse. It is completed for the address that is pending. -/
theorem signsIn_iff (hline : words line = ["taso-cli", "login"])
    (hcomplete : t.accounts.completeFault = none) (email : String) :
    t.SignsIn line email ↔ t.accounts.signedIn = none ∧ t.accounts.pending = some email := by
  cases signs_run h line with
  | kept noLink noWelcome leaves =>
      refine ⟨fun ⟨_, hnobody, hsomebody⟩ => ?_, fun ⟨hnobody, hpending⟩ => ?_⟩
      · rw [leaves, hnobody] at hsomebody
        cases hsomebody
      · -- The service had no reason to refuse.
        rcases noWelcome hline hnobody with ⟨fault, hrefused⟩
        rw [Accounts.complete, hcomplete, hpending] at hrefused
        cases hrefused
  | linked address link typed => exact absurd (hline.symm.trans typed) (by simp)
  | entered other typed nobody begun printed leaves =>
      rw [SignsIn, leaves]
      simp [hline, nobody, begun]
  | left typed => exact absurd (hline.symm.trans typed) (by simp)

/-- Who has signed in is welcomed. -/
theorem printed_of_signsIn {email : String} (hsigns : t.SignsIn line email) :
    (t.run line).1 = .text (Account.welcomeText email) := by
  rcases hsigns with ⟨hline, hnobody, hsomebody⟩
  cases signs_run h line with
  | kept noLink noWelcome leaves =>
      rw [leaves, hnobody] at hsomebody
      cases hsomebody
  | linked address link typed => exact absurd (hline.symm.trans typed) (by simp)
  | entered other typed nobody begun printed leaves =>
      rw [leaves] at hsomebody
      rw [printed, Option.some.inj hsomebody]
  | left typed => exact absurd (hline.symm.trans typed) (by simp)

/-- A link that is asked for while nobody is signed in is sent, if the service does not refuse. -/
theorem linkedAddress?_of_nobody {address : String}
    (hline : words line = ["taso-cli", "login", "--email", address])
    (hnobody : t.accounts.signedIn = none) (hsend : t.accounts.sendFault = none) :
    t.linkedAddress? line = some address := by
  refine linkedAddress?_eq_some_iff.2 ⟨hline, ?_⟩
  cases signs_run h line with
  | kept noLink =>
      rcases (noLink address hline).2 hnobody with ⟨fault, hrefused⟩
      rw [hsend] at hrefused
      cases hrefused
  | linked other link typed nobody printed => exact printed
  | entered other typed => exact absurd (hline.symm.trans typed) (by simp)
  | left typed => exact absurd (hline.symm.trans typed) (by simp)

/-- A line that changes the accounts is about signing in or out. -/
theorem words_of_accounts_ne (hchanged : (t.run line).2.accounts ≠ t.accounts) :
    (∃ options, words line = "taso-cli" :: "login" :: options) ∨
      words line = ["taso-cli", "logout"] := by
  cases signs_run h line with
  | kept noLink noWelcome leaves => exact absurd leaves hchanged
  | linked address link typed => exact .inl ⟨_, typed⟩
  | entered email typed => exact .inl ⟨_, typed⟩
  | left typed => exact .inr typed

/-- A link is sent only while nobody is signed in. -/
theorem nobody_of_sent_ne (hsent : (t.run line).2.accounts.sent ≠ t.accounts.sent) :
    t.accounts.signedIn = none := by
  cases signs_run h line with
  | linked address link typed nobody => exact nobody
  | kept noLink noWelcome leaves => exact absurd (by rw [leaves]) hsent
  | entered email typed nobody => exact nobody
  | left typed leaves => exact absurd (by rw [leaves]) hsent

end Line

/-- The last of several entries is the one that is pointed out, or it comes after that one. -/
theorem concat_eq_append_cons {α : Type} {xs before since : List α} {x y : α}
    (h : xs ++ [x] = before ++ y :: since) :
    (since = [] ∧ xs = before ∧ x = y) ∨
      ∃ rest, since = rest ++ [x] ∧ xs = before ++ y :: rest := by
  rcases List.eq_nil_or_concat since with rfl | ⟨rest, z, rfl⟩
  · obtain ⟨hbefore, hlast⟩ := List.append_inj' h rfl
    exact .inl ⟨rfl, hbefore, (List.cons.inj hlast).1⟩
  · rw [List.concat_eq_append, ← List.cons_append, ← List.append_assoc] at h
    obtain ⟨hbefore, hlast⟩ := List.append_inj' h rfl
    rw [List.concat_eq_append, (List.cons.inj hlast).1]
    exact .inr ⟨rest, rfl, hbefore⟩

theorem awaits_concat {lines : List (Session × String)} {t : Session} {line email : String} :
    Awaits (lines ++ [(t, line)]) email ↔ t.linkedAddress? line = some email ∨
      (t.linkedAddress? line = none ∧ ∀ other, ¬t.SignsIn line other) ∧ Awaits lines email := by
  constructor
  · rintro ⟨before, u, begun, since, hlines, hsends, hsince⟩
    rcases concat_eq_append_cons hlines with ⟨_, _, hlast⟩ | ⟨since, rfl, hearlier⟩
    · cases hlast
      exact .inl hsends
    · exact .inr ⟨hsince _ _ (List.mem_append_right _ (List.mem_singleton_self _)),
        before, u, begun, since, hearlier, hsends,
        fun w line hmem => hsince w line (List.mem_append_left _ hmem)⟩
  · rintro (hsends | ⟨hquiet, before, u, begun, since, rfl, hsends, hsince⟩)
    · exact ⟨lines, t, line, [], rfl, hsends, fun _ _ hmem => absurd hmem List.not_mem_nil⟩
    · refine ⟨before, u, begun, since ++ [(t, line)], by simp, hsends, fun w line' hmem => ?_⟩
      rcases List.mem_append.1 hmem with hmem | hmem
      · exact hsince w line' hmem
      · cases List.mem_singleton.1 hmem
        exact hquiet

/-- What was begun before a sign-in is not awaited after it: a link that is still to be used was
    sent since. -/
theorem Awaits.begun_since {earlier between : List (Session × String)} {t : Session}
    {line email other : String} (h : Awaits (earlier ++ (t, line) :: between) email)
    (hsigns : t.SignsIn line other) :
    ∃ u begun, (u, begun) ∈ between ∧ u.linkedAddress? begun = some email := by
  rcases h with ⟨before, u, begun, since, hlines, hsends, hsince⟩
  -- The line that signs in sends no link, so it is not the one that was sent last.
  have hne : (t, line) ≠ (u, begun) := by
    rintro ⟨⟩
    rw [linkedAddress?_of_signsIn hsigns] at hsends
    cases hsends
  rcases List.append_eq_append_iff.1 hlines with ⟨gap, _, hrest⟩ | ⟨gap, _, hrest⟩
  · cases gap with
    | nil => exact absurd (List.cons.inj hrest).1 hne
    | cons first gap =>
        refine ⟨u, begun, ?_, hsends⟩
        rw [(List.cons.inj hrest).2]
        exact List.mem_append_right _ List.mem_cons_self
  · cases gap with
    | nil => exact absurd (List.cons.inj hrest).1.symm hne
    | cons first gap =>
        -- It would stand among the lines after the last link, where nobody signs in.
        have hmem : (t, line) ∈ since := by
          rw [(List.cons.inj hrest).2]
          exact List.mem_append_right _ List.mem_cons_self
        exact absurd hsigns ((hsince t line hmem).2 other)

namespace Carries

variable {a b : Accounts} {lines : List (Session × String)} (h : Carries a lines b)

include h

theorem completeFault : b.completeFault = a.completeFault := by
  induction h with
  | nil => rfl
  | concat earlier registry line ih =>
      rw [← ih]
      cases steps_run registry line with
      | kept _ _ leaves => rw [leaves]
      | linked _ _ _ _ leaves => rw [leaves]
      | entered _ _ leaves => rw [leaves]
      | left _ _ leaves => rw [leaves]

/-- There is never both somebody signed in and a sign-in pending. -/
theorem exclusive (hpending : a.pending = none) : b.signedIn = none ∨ b.pending = none := by
  induction h with
  | nil => exact .inr hpending
  | concat earlier registry line ih =>
      cases steps_run registry line with
      | kept noLink noWelcome leaves =>
          rw [leaves]
          exact ih
      | linked link sends noWelcome nobody leaves =>
          -- A link is only sent while nobody is signed in.
          rw [leaves]
          exact .inl nobody
      | entered noLink enters leaves =>
          rw [leaves]
          exact .inr rfl
      | left noLink noWelcome leaves =>
          rw [leaves]
          exact .inl rfl

/-- The lines are run with the built-in commands. -/
theorem registry {t : Session} {line : String} (hmem : (t, line) ∈ lines) :
    t.registry = .builtin := by
  induction h with
  | nil => cases hmem
  | concat earlier registry last ih =>
      rcases List.mem_append.1 hmem with hmem | hmem
      · exact ih hmem
      · cases List.mem_singleton.1 hmem
        exact registry

/-- What is pending is the sign-in that the lines await. -/
theorem pending_iff (hpending : a.pending = none) (email : String) :
    b.pending = some email ↔ Awaits lines email := by
  induction h with
  | nil =>
      -- No line has begun anything.
      rw [hpending]
      refine ⟨nofun, fun ⟨before, _, _, _, hlines, _⟩ => ?_⟩
      cases before <;> cases hlines
  | @concat lines t earlier registry line ih =>
      rw [awaits_concat]
      cases steps_run registry line with
      | kept noLink noWelcome leaves =>
          rw [leaves]
          simpa [noLink, noWelcome] using ih
      | linked link sends noWelcome nobody leaves =>
          rw [leaves]
          simp [sends]
      | entered noLink enters leaves =>
          -- Nothing is pending any more, and whatever was begun before is not awaited either.
          have hsomebody : ¬∀ other, ¬t.SignsIn line other := fun hnobody => hnobody _ enters
          rw [leaves]
          simp [noLink, hsomebody]
      | left noLink noWelcome leaves =>
          rw [leaves]
          simpa [noLink, noWelcome] using ih

/-- The links are those that the lines have sent, in order. -/
theorem sent : b.sent.map Prod.fst =
    a.sent.map Prod.fst ++ lines.filterMap fun entry => entry.1.linkedAddress? entry.2 := by
  induction h with
  | nil => simp
  | concat earlier registry line ih =>
      rw [List.filterMap_append, ← List.append_assoc, ← ih]
      cases steps_run registry line with
      | kept noLink noWelcome leaves =>
          rw [leaves]
          simp [noLink]
      | linked link sends noWelcome nobody leaves =>
          rw [leaves]
          simp [sends]
      | entered noLink enters leaves =>
          rw [leaves]
          simp [noLink]
      | left noLink noWelcome leaves =>
          rw [leaves]
          simp [noLink]

/-- Before a line the accounts are carried along the lines before it. -/
theorem before {earlier later : List (Session × String)} {t : Session} {line : String}
    (hlines : lines = earlier ++ (t, line) :: later) : Carries a earlier t.accounts := by
  induction h generalizing later with
  | nil => simp at hlines
  | @concat lines u hearlier registry last ih =>
      rcases concat_eq_append_cons hlines with ⟨_, rfl, hlast⟩ | ⟨later, _, hlines⟩
      · cases hlast
        exact hearlier
      · exact ih hlines

/-- At each of the lines: a bare `taso-cli login` signs in exactly if nobody is signed in and the
    lines before it await a sign-in. -/
theorem signsIn_iff_awaits (hpending : a.pending = none) (hcomplete : a.completeFault = none)
    {earlier later : List (Session × String)} {t : Session} {line : String}
    (hlines : lines = earlier ++ (t, line) :: later) (hline : words line = ["taso-cli", "login"])
    (email : String) :
    t.SignsIn line email ↔ t.accounts.signedIn = none ∧ Awaits earlier email := by
  have hbefore : Carries a earlier t.accounts := h.before hlines
  have hregistry : t.registry = .builtin := by
    rw [hlines] at h
    exact h.registry List.mem_append_cons_self
  rw [signsIn_iff hregistry line hline (hbefore.completeFault.trans hcomplete),
    hbefore.pending_iff hpending]

end Carries

/-- An action goes on where the lines have ended, if it leaves the collaborators alone. -/
theorem carries_act {a : Accounts} {lines : List (Session × String)} {s : Session}
    (h : s.registry = .builtin) (hearlier : Carries a lines s.accounts) {action : Action}
    (hinside : ∀ w, action ≠ .outside w) :
    Carries a (lines ++ s.ran action) (s.act action).accounts := by
  cases action with
  | boot hint =>
      -- Landing touches no accounts, so the line of the hint, if there is one, is the next line.
      have hregistry : (s.landed hint).registry = .builtin :=
        (s.sameSetting_landed hint).registry.trans h
      have haccounts : (s.landed hint).accounts = s.accounts := by rw [landed]
      rw [act, ran]
      cases hline : (s.landing hint).2 with
      | none =>
          rw [boot_of_none hline, haccounts, Option.toList_none, List.map_nil, List.append_nil]
          exact hearlier
      | some line =>
          rw [boot_of_some hline]
          rw [← haccounts] at hearlier
          exact .concat hearlier hregistry line
  | line text =>
      rw [act, ran]
      exact .concat hearlier h text
  | hide =>
      rw [act, ran, hide, List.append_nil]
      exact hearlier
  | outside w => exact absurd rfl (hinside w)

/-- So does a run. -/
theorem carries_after {a : Accounts} {lines : List (Session × String)} {s : Session}
    (h : s.registry = .builtin) (hearlier : Carries a lines s.accounts) (actions : List Action)
    (hinside : ∀ w, .outside w ∉ actions) :
    Carries a (lines ++ s.trace actions) (s.after actions).accounts := by
  induction actions generalizing lines s with
  | nil =>
      rw [trace, List.append_nil]
      exact hearlier
  | cons action actions ih =>
      have hfirst : Carries a (lines ++ s.ran action) (s.act action).accounts :=
        carries_act h hearlier fun w he => hinside w (he ▸ List.mem_cons_self)
      rw [after_cons, trace, ← List.append_assoc]
      exact ih ((s.sameSetting_act action).registry.trans h) hfirst fun w hmem =>
        hinside w (List.mem_cons_of_mem _ hmem)

/-- In a run that begins with no sign-in pending, over a service that completes what is pending:
    there is never both somebody signed in and a sign-in pending, and the links are those that the
    lines have sent, in order. A bare `taso-cli login` signs in exactly if nobody is signed in and a
    link was sent since somebody last signed in, and then for the address of the last link; the next
    sign-in needs a link of its own. A link is sent only while nobody is signed in, and then always
    unless the service refuses. No line changes the accounts but those about signing in and out. -/
theorem signIn_protocol {s : Session} (h : s.registry = .builtin)
    (hpending : s.accounts.pending = none) (hcomplete : s.accounts.completeFault = none)
    (actions : List Action) (hinside : ∀ w, .outside w ∉ actions) :
    ((s.after actions).accounts.signedIn = none ∨ (s.after actions).accounts.pending = none) ∧
    (s.after actions).accounts.sent.map Prod.fst = s.accounts.sent.map Prod.fst ++
      (s.trace actions).filterMap (fun entry => entry.1.linkedAddress? entry.2) ∧
    ∀ earlier t line later, s.trace actions = earlier ++ (t, line) :: later →
      (words line = ["taso-cli", "login"] → ∀ email,
        t.SignsIn line email ↔ t.accounts.signedIn = none ∧ Awaits earlier email) ∧
      (∀ email, t.SignsIn line email →
        (t.run line).1 = .text (Account.welcomeText email) ∧
        ∀ between u next rest other, later = between ++ (u, next) :: rest → u.SignsIn next other →
          ∃ v begun, (v, begun) ∈ between ∧ v.linkedAddress? begun = some other) ∧
      ((t.run line).2.accounts.sent ≠ t.accounts.sent → t.accounts.signedIn = none) ∧
      (∀ address, words line = ["taso-cli", "login", "--email", address] →
        t.accounts.signedIn = none → t.accounts.sendFault = none →
          t.linkedAddress? line = some address) ∧
      ((t.run line).2.accounts ≠ t.accounts →
        (∃ options, words line = "taso-cli" :: "login" :: options) ∨
          words line = ["taso-cli", "logout"]) := by
  have hcarries : Carries s.accounts (s.trace actions) (s.after actions).accounts :=
    @carries_after s.accounts [] s h .nil actions hinside
  refine ⟨hcarries.exclusive hpending, hcarries.sent, fun earlier t line later htrace => ?_⟩
  have hregistry : t.registry = .builtin := by
    rw [htrace] at hcarries
    exact hcarries.registry List.mem_append_cons_self
  refine ⟨hcarries.signsIn_iff_awaits hpending hcomplete htrace,
    fun email hsigns => ⟨printed_of_signsIn hregistry line hsigns, ?_⟩,
    nobody_of_sent_ne hregistry line, fun address => linkedAddress?_of_nobody hregistry line,
    words_of_accounts_ne hregistry line⟩
  rintro between u next rest other rfl hnext
  -- The later sign-in was awaited by all that came before it.
  have hsplit : s.trace actions = (earlier ++ (t, line) :: between) ++ (u, next) :: rest := by
    rw [htrace, List.append_assoc, List.cons_append]
  have hawaits := hcarries.signsIn_iff_awaits hpending hcomplete hsplit hnext.1 other
  exact (hawaits.1 hnext).2.begun_since hsigns

/-- Two links are sent, and the second one lets in. After that nothing is pending. -/
theorem signIn_protocol_twoLinks :
    let s := start { demoSetup .empty with accounts := {} }
    let first := "taso-cli login --email a@u"
    let second := " taso-cli login  --email b@u"
    let t := s.after [.line first, .line second]
    t.SignsIn "taso-cli login" "b@u" ∧
      (t.run "taso-cli login").2.accounts.sent.map Prod.fst = ["a@u", "b@u"] ∧
      (t.run "taso-cli login").2.accounts.pending = none := by
  intro s first second t
  have hnobody : t.accounts.signedIn = none := by decide +kernel
  have hunsent : s.accounts.sent = [] := rfl
  have hfirst : s.linkedAddress? first = some "a@u" := by decide +kernel
  have hsecond : (s.after [.line first]).linkedAddress? second = some "b@u" := by decide +kernel
  have hprotocol := signIn_protocol (s := s) rfl rfl rfl
    [.line first, .line second, .line "taso-cli login"] (by simp)
  -- From here on it does not matter what the session is.
  clear_value s first second
  have htrace : s.trace [.line first, .line second, .line "taso-cli login"] =
      [(s, first), (s.after [.line first], second)] ++ [(t, "taso-cli login")] := rfl
  have hlast : s.after [.line first, .line second, .line "taso-cli login"] =
      (t.run "taso-cli login").2 := rfl
  rw [htrace, hlast] at hprotocol
  clear_value t
  rcases hprotocol with ⟨hexclusive, hsent, hlines⟩
  have hsigns : t.SignsIn "taso-cli login" "b@u" :=
    ((hlines _ t _ _ rfl).1 (by decide) "b@u").2
      ⟨hnobody, [(s, first)], _, second, [], rfl, hsecond, fun _ _ hmem => nomatch hmem⟩
  have hthird : t.linkedAddress? "taso-cli login" = none := linkedAddress?_of_signsIn hsigns
  refine ⟨hsigns, ?_, ?_⟩
  · rw [hsent, hunsent]
    simp [hfirst, hsecond, hthird]
  · refine hexclusive.resolve_left fun hnobody => ?_
    rw [hsigns.2.2] at hnobody
    cases hnobody

end TreeShell.Session
