import TreeShell.Proofs.Command.Blind
import TreeShell.Proofs.Command.ReadOnly
import TreeShell.Proofs.Session.Log

/-!
# Lines That Leave No Trace

Lines that only look can be left out of a session, and nobody would notice but somebody who asks for
the history: every other line prints what it would have printed, and the session ends the same in
all but its log and the requests that were made.

The two sessions are run side by side. Between two lines they are alike: one is the other with
another log and other requests. A line that is typed in both keeps them alike, and so does a line
that is typed in one of them only, if all it can do is look. The difficulty is clearing the screen.
It releases the images of the visible outputs, and what is visible is just what differs. It does the
same in both because in a sound log the images that are visible are the ones that are registered, so
either session releases all that it has.

A line left out may have made a request, so the content provider has to answer as if it had not been
asked before. One held in memory does, and still does where it turns some requests away.

## Main definitions

* `Session.Alike`: Only the log and the traffic differ.
* `Session.typed`, `Session.printed`: What comes of a script, and what its lines print.
* `Session.SamePrint`: The same line, which printed the same unless it asked for the history.

## Theorems

* `Session.Logged.gallery_run`: A line that clears the screen releases every image.
* `Session.Alike.run`: A line that is typed in both sessions keeps them alike.
* `Session.Alike.skip`: So does a read-only line that is typed in one of them.
* `Session.Alike.typed`: So does a script, and one from which read-only lines are left out.
* `Session.readOnly_noninterference`: All of this, for any session that can come about.
-/

namespace TreeShell.Session

/-- Two sessions with sound logs that differ in nothing but these and the requests made, over a
    provider that is steady. -/
structure Alike (s s' : Session) : Prop where
  registry : s.registry = .builtin
  steady : s.content.Steady
  logged : s.Logged
  logged' : s'.Logged
  same : ∃ history outputs hidden traffic, s' = { s with history, outputs, hidden, traffic }

/-- The session after the lines of a script. What is noted beside a line does not matter. -/
def typed {α : Type} (s : Session) (script : List (String × α)) : Session :=
  s.after (script.map fun e => .line e.1)

theorem typed_cons {α : Type} (s : Session) (e : String × α) (script : List (String × α)) :
    s.typed (e :: script) = (s.run e.1).2.typed script := by
  rw [typed, List.map_cons, after_cons, act, typed]

/-- The lines of a script, each with what it prints. -/
def printed {α : Type} (s : Session) : List (String × α) → List ((String × α) × Output)
  | [] => []
  | e :: script => (e, (s.run e.1).1) :: (s.run e.1).2.printed script

/-- The same line, which printed the same unless it asked for the history. -/
def SamePrint (e e' : (String × Bool) × Output) : Prop :=
  e'.1 = e.1 ∧ (words e.1.1 ≠ ["history"] → e'.2 = e.2)

/-- A line that clears the screen releases every image there is, and no other line releases any. -/
theorem Logged.gallery_run {s : Session} (h : s.Logged) (hregistry : s.registry = .builtin)
    (line : String) :
    (s.run line).2.gallery =
      if (s.registry.execute line s.environment).1 = .clear then
        { (s.registry.execute line s.environment).2.gallery with images := [] }
      else (s.registry.execute line s.environment).2.gallery := by
  rcases s.ends_line line hregistry with ⟨result, env, _, hexec, hends⟩
  rw [hexec]
  by_cases hclear : Output.ofResult result = .clear
  · rw [if_pos hclear]
    rw [hclear] at hexec
    -- Up to then nothing happened to the gallery: the only ending that changes it shows an image.
    have hgallery : env.gallery = s.gallery := by
      cases hends with
      | shown image => cases hclear
      | _ => rfl
    have himages : (s.run line).2.gallery.images = [] := (h.clear hexec hgallery).2.2
    have hnext : (s.run line).2.gallery.next = env.gallery.next := by
      rw [s.run_of_clear line hexec]
      exact Gallery.next_revoked env.gallery _
    generalize (s.run line).2.gallery = gallery at himages hnext ⊢
    rcases gallery with ⟨images, next⟩
    obtain rfl : images = [] := himages
    exact congrArg (Gallery.mk []) hnext
  · rw [if_neg hclear, s.run_of_output line hexec hclear]
    rfl

namespace Alike

variable {s s' : Session} (h : s.Alike s')

include h

theorem registry' : s'.registry = .builtin := by
  rcases h.same with ⟨_, _, _, _, rfl⟩
  exact h.registry

theorem environment : s.environment.Alike s'.environment := by
  rcases h.same with ⟨history, outputs, hidden, traffic, rfl⟩
  exact ⟨h.steady, history, traffic, rfl⟩

/-- A line comes to the same in both sessions, unless it asks for the history, and in any case it
    leaves environments that are alike. -/
theorem execute (line : String) :
    (words line ≠ ["history"] → (s'.registry.execute line s'.environment).1 =
      (s.registry.execute line s.environment).1) ∧
    (s.registry.execute line s.environment).2.Alike
      (s'.registry.execute line s'.environment).2 := by
  rw [h.registry, h.registry']
  exact Environment.alike_dispatch h.environment (words line)

/-- It clears the screen in both or in neither. -/
theorem clear_iff (line : String) :
    (s'.registry.execute line s'.environment).1 = .clear ↔
      (s.registry.execute line s.environment).1 = .clear := by
  by_cases hhistory : words line = ["history"]
  · rw [h.registry, h.registry', Registry.execute, Registry.execute, hhistory,
      Environment.dispatch_history, Environment.dispatch_history]
    simp
  · rw [(h.execute line).1 hhistory]

/-- It prints the same. -/
theorem samePrint_run (e : String × Bool) :
    SamePrint (e, (s.run e.1).1) (e, (s'.run e.1).1) := by
  refine ⟨rfl, fun hline => ?_⟩
  dsimp only
  rw [run_output, run_output]
  exact (h.execute e.1).1 hline

theorem gallery_run (line : String) : (s'.run line).2.gallery = (s.run line).2.gallery := by
  have hgallery : (s'.registry.execute line s'.environment).2.gallery =
      (s.registry.execute line s.environment).2.gallery := by
    rcases (h.execute line).2.same with ⟨_, _, henv⟩
    rw [henv]
  rw [h.logged.gallery_run h.registry, h.logged'.gallery_run h.registry', hgallery]
  exact if_congr (h.clear_iff line) rfl rfl

/-- A line that is typed in both sessions keeps them alike. -/
theorem run (line : String) : (s.run line).2.Alike (s'.run line).2 where
  registry := (s.sameSetting_run line).registry.trans h.registry
  steady := by
    rw [run_content]
    exact h.steady
  logged := logged_run h.logged h.registry line
  logged' := logged_run h.logged' h.registry' line
  same := by
    have hgallery := h.gallery_run line
    rcases (h.execute line).2.same with ⟨_, traffic, henv⟩
    rcases s.run_absorbs line with ⟨_, _, _, gallery, hrun⟩
    rcases s'.run_absorbs line with ⟨history, outputs, hidden, gallery', hrun'⟩
    rw [henv] at hrun'
    -- Which environment the command left does not matter, only that both sessions absorb it.
    generalize (s.registry.execute line s.environment).2 = env at hrun hrun'
    rw [hrun, hrun'] at hgallery ⊢
    obtain rfl : gallery' = gallery := hgallery
    rcases h.same with ⟨_, _, _, _, rfl⟩
    exact ⟨history, outputs, hidden, traffic, rfl⟩

/-- So does a read-only line that is typed in one of them only. -/
theorem skip {line : String} (hline : ReadOnly (words line)) : (s.run line).2.Alike s' := by
  have hlogged := logged_run h.logged h.registry line
  rcases s.environment.dispatch_readOnly hline with ⟨traffic, henv⟩
  have hclear : (Registry.builtin.dispatch (words line) s.environment).1 ≠ .clear := by
    refine s.environment.dispatch_ne_clear fun hhead => ?_
    exact hline _ hhead (by decide)
  rcases hexec : Registry.builtin.dispatch (words line) s.environment with ⟨output, env⟩
  rw [hexec] at hclear henv
  obtain rfl : env = { s.environment with traffic } := henv
  rw [← Registry.execute, ← h.registry] at hexec
  -- It is recorded, and the other session does not know of it.
  rw [s.run_of_output line hexec hclear] at hlogged ⊢
  rcases h.same with ⟨history, outputs, hidden, traffic', rfl⟩
  exact ⟨h.registry, h.steady, hlogged, h.logged', history, outputs, hidden, traffic', rfl⟩

end Alike

/-- A whole script keeps two sessions alike, where in one of them all lines that are not marked are
    left out, and these are read-only. The marked lines print the same, one by one. -/
theorem Alike.typed {s s' : Session} (h : s.Alike s') {script : List (String × Bool)}
    (hscript : ∀ e ∈ script, e.2 = false → ReadOnly (words e.1)) :
    List.Forall₂ SamePrint ((s.printed script).filter fun e => e.1.2)
        (s'.printed (script.filter Prod.snd)) ∧
      (s.typed script).Alike (s'.typed (script.filter Prod.snd)) := by
  induction script generalizing s s' with
  | nil => exact ⟨.nil, h⟩
  | cons e script ih =>
      rcases e with ⟨line, marked⟩
      rw [List.forall_mem_cons] at hscript
      rw [printed, typed_cons]
      cases marked with
      | true =>
          rcases ih (h.run line) hscript.2 with ⟨hprinted, htyped⟩
          rw [List.filter_cons_of_pos rfl, List.filter_cons_of_pos rfl, printed, typed_cons]
          exact ⟨.cons (h.samePrint_run _) hprinted, htyped⟩
      | false =>
          rw [List.filter_cons_of_neg Bool.false_ne_true,
            List.filter_cons_of_neg Bool.false_ne_true]
          exact ih (h.skip (hscript.1 rfl)) hscript.2

/-- Take a session that can come about, over a provider held in memory that turns some requests
    away, and a script in which every line that is not marked is read-only. Played without these
    lines, all others print the same, one by one, unless they ask for the history. And the session
    ends the same in everything but its log and the requests made: the working directory, the tree,
    the images, the accounts, the store, and the supply of characters for login links. -/
theorem readOnly_noninterference (setup : Setup) (tree : Dir) (actions : List Action)
    (m : MemoryContent) (refusal : Request → Option Fault) (script : List (String × Bool)) :
    let s := (overTree setup tree).after actions
    s.content = m.provider.refusing refusal →
    (∀ e ∈ script, e.2 = false → ReadOnly (words e.1)) →
    List.Forall₂ SamePrint ((s.printed script).filter fun e => e.1.2)
        (s.printed (script.filter Prod.snd)) ∧
      ∃ history outputs hidden traffic, s.typed (script.filter Prod.snd) =
        { s.typed script with history, outputs, hidden, traffic } := by
  intro s hcontent hscript
  have hregistry : s.registry = .builtin :=
    ((overTree setup tree).sameSetting_after actions).registry
  have hlogged : s.Logged := logged_after (logged_overTree setup tree) rfl actions
  have hsteady : s.content.Steady := by
    rw [hcontent]
    exact m.steady_provider.refusing refusal
  have halike : s.Alike s := ⟨hregistry, hsteady, hlogged, hlogged, _, _, _, _, rfl⟩
  rcases halike.typed hscript with ⟨hprinted, htyped⟩
  exact ⟨hprinted, htyped.same⟩

/-- Of these lines two change the session, one clears the screen, and one asks for the history. -/
theorem readOnly_noninterference_demo :
    let refusal (r : Request) : Option Fault :=
      if r = .text (.storage "home/u/note.md") then some (.provider "not today") else none
    let demo := demoSetup (.ofList [("README.md", .file true)])
    let setup : Setup := { demo with content := demo.content.refusing refusal }
    let s := (overTree setup (defaultTree "u")).after [.hide]
    let script := [("ls", false), ("taso-cli reset", true), ("cat note.md", false),
      ("cd repositories/r", true), ("", false), ("history", true), ("clear", true), ("pwd", true)]
    List.Forall₂ SamePrint ((s.printed script).filter fun e => e.1.2)
        (s.printed (script.filter Prod.snd)) ∧
      ∃ history outputs hidden traffic, s.typed (script.filter Prod.snd) =
        { s.typed script with history, outputs, hidden, traffic } := by
  intro refusal demo setup s script
  have hscript : ∀ e ∈ script, e.2 = false → ReadOnly (words e.1) := by decide
  exact readOnly_noninterference setup (defaultTree "u") [.hide] _ refusal script rfl hscript

end TreeShell.Session
