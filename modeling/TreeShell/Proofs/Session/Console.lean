import Mathlib.Data.List.DropRight
import TreeShell.Proofs.Editor.Cycling
import TreeShell.Proofs.Session.Runs
import TreeShell.Shell.Console

/-!
# Keys Through the Console

A key reaches the editor in one of two ways. Most hosts hand every event to the console; one that
goes on while a command runs presses the keys of the editor itself. An editor that is pressed itself
ends a completion at every key but the one for it, and so the next completion goes by the text that
is on the screen by then.

The console agrees on every key but one. It takes the key that clears the screen for itself and
never shows it to the editor, which therefore goes on as if that key had not been pressed. So the
two ways part at that key, and only while a completion is under way (`handle_key_eq_iff`). Nothing
is to be seen of it until the completion key follows: it then shows another candidate for the text
of before, and does not complete what is on the screen (`clear_key_keeps_completion`).

How far back that text may lie is read off the moves of the host. The completion key and the key
that clears the screen leave it, and every other move gives it up (`begun_after`).

## Main definitions

* `Console.Move`, `Console.step`, `Console.after`: What a host does with a console, and what comes
  of it.
* `Console.Move.goesOn`: The moves over which a completion goes on.

## Theorems

* `Editor.completion_press`: A key that is pressed ends a completion, unless it is the one for it.
* `Console.handle_key`: Every key but one is pressed.
* `Console.begun_step`, `Console.completion_step`: What a move does to a completion.
* `Console.begun_after`: The text that completion goes by after moves.
* `Console.handle_key_eq_iff`: When the console and the editor agree.
* `Console.clear_key_keeps_completion`: Where they do not.
-/

namespace TreeShell

namespace Editor

theorem completion_scrollUp (e : Editor) (history : List String) :
    (e.scrollUp history).completion = e.completion := by
  rw [scrollUp]
  split
  all_goals rfl

theorem completion_scrollDown (e : Editor) (history : List String) :
    (e.scrollDown history).completion = e.completion := by
  rw [scrollDown]
  split
  · rfl
  · split
    all_goals rfl

/-- Every key but the completion key ends a completion. -/
theorem completion_press {k : Key} (h : k ≠ .tab) (e : Editor) (v : View) :
    (e.press k v).completion = .idle := by
  cases k with
  | char c => rfl
  | backspace => rfl
  | arrowUp => exact completion_scrollUp _ v.history
  | arrowDown => exact completion_scrollDown _ v.history
  | tab => exact absurd rfl h
  | clearScreen => rfl

end Editor

namespace Console

/-- What a host does with a console. -/
inductive Move where
  | event (e : Event)
  | submit
  deriving DecidableEq, Repr

/-- A completion goes on over the key for it, and over the one that clears the screen. -/
def Move.goesOn (m : Move) : Bool :=
  m = .event (.key .tab) ∨ m = .event (.key .clearScreen)

/-- The console after a move. -/
def step (c : Console) : Move → Console
  | .event e => (c.handle e).2
  | .submit => c.submit.2

/-- The console after moves, one after the other. -/
def after (c : Console) (moves : List Move) : Console := moves.foldl step c

theorem after_concat (c : Console) (moves : List Move) (m : Move) :
    c.after (moves ++ [m]) = (c.after moves).step m := by
  rw [after, List.foldl_append, List.foldl_cons, List.foldl_nil, after]

theorem Move.goesOn_iff {m : Move} :
    m.goesOn = true ↔ m = .event (.key .tab) ∨ m = .event (.key .clearScreen) := by
  rw [goesOn, decide_eq_true_eq]

/-- Every key but the one that clears the screen is pressed, with the session as it is. -/
theorem handle_key {k : Key} (h : k ≠ .clearScreen) (c : Console) :
    c.handle (.key k) = (none, { c with editor := c.editor.press k c.session.view }) := by
  cases k with
  | clearScreen => exact absurd rfl h
  | _ => rfl

/-- The text that completion goes by stays where the completion goes on. -/
theorem begun_step {m : Move} (h : m.goesOn = true) (c : Console) :
    (c.step m).editor.begun.1 = c.editor.begun.1 := by
  rcases Move.goesOn_iff.1 h with rfl | rfl
  · exact c.editor.begun_tab c.session.view
  · rfl

/-- Every other move gives it up. -/
theorem completion_step {m : Move} (h : ¬m.goesOn = true) (c : Console) :
    (c.step m).editor.completion = .idle := by
  rw [Move.goesOn_iff, not_or] at h
  cases m with
  | submit => rfl
  | event e =>
      cases e with
      | line text => rfl
      | key k =>
          have htab : k ≠ .tab := fun hk => h.1 (by rw [hk])
          have hclear : k ≠ .clearScreen := fun hk => h.2 (by rw [hk])
          rw [step, handle_key hclear]
          exact Editor.completion_press htab c.editor c.session.view

/-- Completion goes by the text from before the last moves over which it goes on. The induction is
    on the moves from the last one back: over such a move the text stays, and behind any other the
    completion is begun anew. -/
theorem begun_after {c : Console} (h : c.editor.completion = .idle) (moves : List Move) :
    (c.after moves).editor.begun.1 =
      spaced (c.after (moves.rdropWhile Move.goesOn)).editor.buffer := by
  induction moves using List.reverseRecOn with
  | nil =>
      rw [List.rdropWhile_nil, after, List.foldl_nil, Editor.begun_of_idle h]
  | append_singleton moves m ih =>
      by_cases hm : m.goesOn = true
      · rw [List.rdropWhile_concat_pos _ _ _ hm, after_concat, begun_step hm, ih]
      · rw [List.rdropWhile_concat_neg _ _ _ hm, after_concat,
          Editor.begun_of_idle (completion_step hm _)]

/-- A console does with a key what its editor does, unless the key is the one that clears the screen
    and a completion is under way. The editor would end it then, and the console leaves it. Behind
    any other key but the completion key itself, completion begins with the text on the screen. So
    the text that it goes by is in general the one from before the last moves that were the
    completion key or the one that clears the screen. -/
theorem handle_key_eq_iff (s : Session) (moves : List Move) (k : Key) :
    let c := (⟨s, {}⟩ : Console).after moves
    let e := (c.handle (.key k)).2.editor
    let pressed := c.editor.press k c.session.view
    (e = pressed ↔ k ≠ .clearScreen ∨ c.editor.completion = .idle) ∧
    (k = .clearScreen → e = c.editor ∧ pressed = { c.editor with completion := .idle }) ∧
    (k ≠ .tab → pressed.completion = .idle ∧
      (k ≠ .clearScreen → e.begun = (spaced e.buffer, 0))) ∧
    c.editor.begun.1 =
      spaced ((⟨s, {}⟩ : Console).after (moves.rdropWhile Move.goesOn)).editor.buffer := by
  intro c e pressed
  have hidle : k ≠ .tab → pressed.completion = .idle := fun htab =>
    Editor.completion_press htab c.editor c.session.view
  have hpressed : k ≠ .clearScreen → e = pressed := fun hclear => by
    rw [show e = (c.handle (.key k)).2.editor from rfl, handle_key hclear]
  refine ⟨⟨fun heq => ?_, ?_⟩, ?_, fun htab => ⟨hidle htab, fun hclear => ?_⟩,
    begun_after rfl moves⟩
  · by_cases hclear : k = .clearScreen
    · -- The console has not touched the editor, so what the press ended was not there.
      subst hclear
      exact .inr ((congrArg Editor.completion heq).trans (hidle (by decide)))
    · exact .inl hclear
  · rintro (hclear | hnone)
    · exact hpressed hclear
    · by_cases hclear : k = .clearScreen
      · subst hclear
        exact (congrArg (fun completion => { c.editor with completion }) hnone)
      · exact hpressed hclear
  · rintro rfl
    exact ⟨rfl, rfl⟩
  · rw [hpressed hclear, Editor.begun_of_idle (hidle htab)]

/-- A name is completed, and the screen is cleared. The completion key then goes on to the next name
    of the directory, where an editor that was pressed itself completes the one that shows. -/
theorem clear_key_keeps_completion :
    let docs := Dir.ofList [("a", .file true), ("b", .file true)]
    let tree := Dir.ofList [("home", .dir (.ofList [("u", .dir docs)]))]
    let typed : List Move :=
      [.event (.key (.char 'x')), .event (.key (.char ' ')), .event (.key .tab)]
    let c := (⟨.overTree (Session.demoSetup .empty) tree, {}⟩ : Console).after typed
    let cleared := (c.handle (.key .clearScreen)).2
    let pressed := c.editor.press .clearScreen c.session.view
    (cleared.editor = ⟨"x a", .live, .cycling "x " 1⟩ ∧ pressed = ⟨"x a", .live, .idle⟩) ∧
    ((cleared.handle (.key .tab)).2.editor = ⟨"x b", .live, .cycling "x " 2⟩ ∧
      pressed.press .tab cleared.session.view = ⟨"x a", .live, .cycling "x a" 1⟩) ∧
    ¬ ∀ (s : Session) (moves : List Move) (k : Key),
      let c := (⟨s, {}⟩ : Console).after moves
      (c.handle (.key k)).2.editor = c.editor.press k c.session.view := by
  intro docs tree typed c cleared pressed
  have hcleared : cleared.editor = ⟨"x a", .live, .cycling "x " 1⟩ := by decide
  have hpressed : pressed = ⟨"x a", .live, .idle⟩ := by decide
  refine ⟨⟨hcleared, hpressed⟩, ⟨by decide, by decide⟩, fun hall => ?_⟩
  have hsame : cleared.editor = pressed := hall _ typed .clearScreen
  rw [hcleared, hpressed] at hsame
  exact absurd hsame (by decide)

end Console

end TreeShell
