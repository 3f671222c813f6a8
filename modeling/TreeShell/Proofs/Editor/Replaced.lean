import TreeShell.Proofs.Editor.Scrollback

/-!
# A Line Put in by the Host

The host may replace the text on the screen, as it does when the user pastes or picks something
outside the editor. To the user this is an edit like any other, but it is not one to the editor. An
edit that the user makes with a key ends the walk through the history, and what is on the screen is
the line from then on. The host's text only ends a completion. If the user had scrolled, they still
have: the text lies over an entry of the history, and the line that is remembered is the one from
before. The next arrow that leaves the entry takes the text away, and whoever scrolls back to the
end finds the line they left instead (`put_text_lost`).

The arrows never change the line that they come back to. It is the one on the screen while the
editor is live, and the remembered one while an entry shows. So the host's text is kept exactly if
it became that line, and that is settled when it is put in (`put_text_kept_iff`). Whether the user
had scrolled then is a matter of the places they went through; the host's texts have no part in it.

## Main definitions

* `EditorStep`, `Editor.step`, `Editor.steps`: What is done to an editor, and what comes of it.
* `EditorStep.move`: The place that a step leads to.
* `Scroll.place`, `Scroll.Within`: The place of an editor, which is one of its history.
* `Editor.kept`: The line that arrows come back to.

## Theorems

* `Editor.kept_arrows`: Arrows do not change it.
* `Editor.exists_arrows_live`: Some arrows come back to it.
* `Editor.scroll_step`, `Editor.scroll_steps`: An editor is where the steps lead.
* `Editor.put_text_kept_iff`: When the host's text is kept, and what is there if it is not.
* `Editor.put_text_lost`: A text that is not.
-/

namespace TreeShell

/-- What is done to an editor: a stroke of its user, or a text that the host puts in. -/
inductive EditorStep where
  | stroke (s : Stroke)
  | put (text : String)
  deriving DecidableEq, Repr

/-- The place that a step leads to. The host's text leads nowhere. -/
def EditorStep.move (last place : Nat) : EditorStep → Nat
  | .stroke (.arrow a) => a.move last place
  | .stroke (.edit _) => last
  | .stroke .clear => place
  | .put _ => place

namespace Scroll

/-- The place among the entries of a history, and behind the last one the place of the line. -/
def place (last : Nat) : Scroll → Nat
  | .live => last
  | .browsing index _ => index

/-- The entry that shows is one of the history. -/
def Within (last : Nat) : Scroll → Prop
  | .live => True
  | .browsing index _ => index < last

theorem eq_live_iff {last : Nat} {s : Scroll} (h : s.Within last) :
    s = .live ↔ s.place last = last := by
  cases s with
  | live => exact ⟨fun _ => rfl, fun _ => rfl⟩
  | browsing index saved => exact ⟨nofun, fun hplace => absurd hplace (Nat.ne_of_lt h)⟩

end Scroll

namespace Editor

/-- The editor after a step. -/
def step (v : View) (e : Editor) : EditorStep → Editor
  | .stroke s => e.stroke v s
  | .put text => e.setBuffer text

/-- The editor after steps, one after the other. -/
def steps (v : View) (e : Editor) (steps : List EditorStep) : Editor := steps.foldl (step v) e

/-- The line that arrows come back to. -/
def kept (e : Editor) : String :=
  match e.scroll with
  | .live => e.buffer
  | .browsing _ saved => saved

theorem kept_of_live {e : Editor} (h : e.scroll = .live) : e.kept = e.buffer := by
  rw [kept, h]

theorem kept_of_browsing {e : Editor} {index : Nat} {saved : String}
    (h : e.scroll = .browsing index saved) : e.kept = saved := by
  rw [kept, h]

/-- The host's text is that line only while the editor is live. -/
theorem kept_setBuffer_of_browsing {e : Editor} {index : Nat} {saved : String}
    (h : e.scroll = .browsing index saved) (text : String) : (e.setBuffer text).kept = saved :=
  kept_of_browsing (e := e.setBuffer text) h

section Arrows

variable (v : View) (e : Editor)

theorem kept_scrollUp : (e.scrollUp v.history).kept = e.kept := by
  rw [scrollUp]
  cases hscroll : e.scroll with
  | live =>
      cases v.history.length with
      | zero => rfl
      | succ newest => exact (kept_of_live hscroll).symm
  | browsing index saved =>
      cases index with
      | zero => rfl
      | succ before => exact (kept_of_browsing hscroll).symm

theorem kept_scrollDown : (e.scrollDown v.history).kept = e.kept := by
  rw [scrollDown]
  cases hscroll : e.scroll with
  | live => rfl
  | browsing index saved =>
      rw [kept_of_browsing hscroll]
      dsimp only
      cases v.history[index + 1]? with
      | none => rfl
      | some line => rfl

/-- An arrow does not change the line that it comes back to. -/
theorem kept_arrow (a : Arrow) : (e.stroke v (.arrow a)).kept = e.kept := by
  cases a with
  | up => exact kept_scrollUp v { e with completion := .idle }
  | down => exact kept_scrollDown v { e with completion := .idle }

/-- Nor do any number of arrows, by induction on them. -/
theorem kept_arrows (arrows : List Arrow) : (e.strokes v (arrows.map .arrow)).kept = e.kept := by
  induction arrows generalizing e with
  | nil => rfl
  | cons a arrows ih => exact (ih (e.stroke v (.arrow a))).trans (e.kept_arrow v a)

/-- Going forward from an entry comes to the next one, or back to the line. -/
theorem scroll_down_cases {index : Nat} {saved : String} (h : e.scroll = .browsing index saved) :
    (e.stroke v (.arrow .down)).scroll = .live ∨
      index + 1 < v.history.length ∧
        (e.stroke v (.arrow .down)).scroll = .browsing (index + 1) saved := by
  have hdown : e.stroke v (.arrow .down) =
      ({ e with completion := .idle } : Editor).scrollDown v.history := rfl
  rw [hdown, scrollDown, h]
  dsimp only
  cases hnext : v.history[index + 1]? with
  | none => exact .inl rfl
  | some line => exact .inr ⟨(List.getElem?_eq_some_iff.1 hnext).1, rfl⟩

/-- So enough steps forward come back to the line. -/
theorem exists_arrows_live : ∃ arrows : List Arrow,
    (e.strokes v (arrows.map .arrow)).scroll = .live := by
  induction hleft : v.history.length - e.scroll.place v.history.length using Nat.strongRecOn
    generalizing e with
  | ind left ih =>
  cases hscroll : e.scroll with
  | live => exact ⟨[], hscroll⟩
  | browsing index saved =>
      rcases e.scroll_down_cases v hscroll with hlive | ⟨hlt, hnext⟩
      · exact ⟨[.down], hlive⟩
      · have hless : v.history.length -
            (e.stroke v (.arrow .down)).scroll.place v.history.length < left := by
          rw [← hleft, hnext, hscroll, Scroll.place, Scroll.place]
          omega
        rcases ih _ hless (e.stroke v (.arrow .down)) rfl with ⟨arrows, hlive⟩
        exact ⟨.down :: arrows, hlive⟩

end Arrows

section Places

variable {v : View} {e : Editor} (h : e.scroll.Within v.history.length)

include h

theorem scroll_up : (e.scrollUp v.history).scroll.Within v.history.length ∧
    (e.scrollUp v.history).scroll.place v.history.length =
      Arrow.up.move v.history.length (e.scroll.place v.history.length) := by
  rw [scrollUp]
  cases hscroll : e.scroll with
  | live =>
      cases hlength : v.history.length with
      | zero =>
          dsimp only
          rw [hscroll]
          exact ⟨trivial, rfl⟩
      | succ newest => exact ⟨Nat.lt_succ_self newest, rfl⟩
  | browsing index saved =>
      rw [hscroll] at h
      cases index with
      | zero =>
          dsimp only
          rw [hscroll]
          exact ⟨h, rfl⟩
      | succ before => exact ⟨Nat.lt_of_succ_lt h, rfl⟩

theorem scroll_down : (e.scrollDown v.history).scroll.Within v.history.length ∧
    (e.scrollDown v.history).scroll.place v.history.length =
      Arrow.down.move v.history.length (e.scroll.place v.history.length) := by
  rw [scrollDown]
  cases hscroll : e.scroll with
  | live =>
      dsimp only
      rw [hscroll]
      exact ⟨trivial, (if_pos rfl).symm⟩
  | browsing index saved =>
      rw [hscroll] at h
      have hmove : Arrow.down.move v.history.length index = index + 1 := if_neg (Nat.ne_of_lt h)
      dsimp only [Scroll.place]
      rw [hmove]
      cases hnext : v.history[index + 1]? with
      | none =>
          -- Behind the newest entry is the last place, and the entry was one of the history.
          have hlast : v.history.length ≤ index + 1 := List.getElem?_eq_none_iff.1 hnext
          exact ⟨trivial, Nat.le_antisymm hlast h⟩
      | some line => exact ⟨(List.getElem?_eq_some_iff.1 hnext).1, rfl⟩

/-- A step leads to its place, which is one of the history. -/
theorem scroll_step (s : EditorStep) : (e.step v s).scroll.Within v.history.length ∧
    (e.step v s).scroll.place v.history.length =
      s.move v.history.length (e.scroll.place v.history.length) := by
  cases s with
  | put text => exact ⟨h, rfl⟩
  | stroke s =>
      cases s with
      | arrow a =>
          cases a with
          | up => exact scroll_up (e := { e with completion := .idle }) h
          | down => exact scroll_down (e := { e with completion := .idle }) h
      | edit x =>
          have hlive : (e.step v (.stroke (.edit x))).scroll = .live := (e.edit_eq v x).1
          rw [hlive]
          exact ⟨trivial, rfl⟩
      | clear => exact ⟨h, rfl⟩

/-- So do steps, by induction on them. -/
theorem scroll_steps (steps : List EditorStep) :
    (e.steps v steps).scroll.Within v.history.length ∧
      (e.steps v steps).scroll.place v.history.length =
        steps.foldl (EditorStep.move v.history.length) (e.scroll.place v.history.length) := by
  induction steps generalizing e with
  | nil => exact ⟨h, rfl⟩
  | cons s steps ih =>
      have hstep := scroll_step h s
      have hrest := ih hstep.1
      rw [hstep.2] at hrest
      exact hrest

end Places

/-- Whether a text that the host puts in is kept was settled when it was put in. Either the editor
    was live then, which it is where the user's own steps have led behind the newest entry; the text
    is the line, and arrows that lead back there find it. Or an entry showed, and they find the line
    that was remembered with it. Then the text is gone, unless it says the same. -/
theorem put_text_kept_iff (v : View) (steps : List EditorStep) (text : String) :
    let e := ({} : Editor).steps v steps
    let after := fun arrows : List Arrow => (e.setBuffer text).strokes v (arrows.map .arrow)
    (e.scroll = .live ↔
      steps.foldl (EditorStep.move v.history.length) v.history.length = v.history.length) ∧
    (∀ index saved, e.scroll = .browsing index saved →
      (∃ arrows, (after arrows).scroll = .live) ∧
      ∀ arrows, (after arrows).scroll = .live → (after arrows).buffer = saved) ∧
    ((∀ arrows, (after arrows).scroll = .live → (after arrows).buffer = text) ↔
      ∀ index saved, e.scroll = .browsing index saved → saved = text) := by
  intro e after
  have hplaces : e.scroll.Within v.history.length ∧ e.scroll.place v.history.length =
      steps.foldl (EditorStep.move v.history.length) v.history.length :=
    scroll_steps (e := {}) trivial steps
  have hkept : ∀ arrows, (after arrows).scroll = .live →
      (after arrows).buffer = (e.setBuffer text).kept := by
    intro arrows hlive
    rw [← kept_of_live hlive]
    exact (e.setBuffer text).kept_arrows v arrows
  have hback : ∃ arrows, (after arrows).scroll = .live := (e.setBuffer text).exists_arrows_live v
  have hsaved : ∀ index saved, e.scroll = .browsing index saved →
      ∀ arrows, (after arrows).scroll = .live → (after arrows).buffer = saved := by
    intro index saved hbrowsing arrows hlive
    rw [hkept arrows hlive, kept_setBuffer_of_browsing hbrowsing]
  refine ⟨?_, fun index saved hbrowsing => ⟨hback, hsaved index saved hbrowsing⟩, ?_⟩
  · rw [Scroll.eq_live_iff hplaces.1, hplaces.2]
  constructor
  · intro htext index saved hbrowsing
    rcases hback with ⟨arrows, hlive⟩
    rw [← hsaved index saved hbrowsing arrows hlive, htext arrows hlive]
  · intro hsame arrows hlive
    cases hscroll : e.scroll with
    | live => rw [hkept arrows hlive, kept_of_live (e := e.setBuffer text) hscroll, setBuffer]
    | browsing index saved =>
        rw [hsaved index saved hscroll arrows hlive, hsame index saved hscroll]

/-- A text put in over an entry of the history is lost with the arrow that leaves the entry, which
    brings back the empty line from before. -/
theorem put_text_lost :
    let v : View := ⟨.empty, .home "u", .home "u", ["pwd"], ["pwd"]⟩
    let e := ({} : Editor).steps v [.stroke (.arrow .up)]
    let after := (e.setBuffer "x").strokes v [.arrow .down]
    (after.scroll = .live ∧ after.buffer = "") ∧
      ¬ ∀ (v : View) (steps : List EditorStep) (text : String) (arrows : List Arrow),
        let after := ((({} : Editor).steps v steps).setBuffer text).strokes v (arrows.map .arrow)
        after.scroll = .live → after.buffer = text := by
  intro v e after
  have hafter : after.scroll = .live ∧ after.buffer = "" := ⟨rfl, rfl⟩
  refine ⟨hafter, fun hall => ?_⟩
  have htext : after.buffer = "x" := hall v [.stroke (.arrow .up)] "x" [.down] hafter.1
  rw [hafter.2] at htext
  exact absurd htext (by decide)

end Editor

end TreeShell
