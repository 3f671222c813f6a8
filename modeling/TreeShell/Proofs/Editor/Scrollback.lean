import TreeShell.Proofs.Editor.Cycling

/-!
# Scrolling Through the History

To the user, scrolling is a walk. The places are the entries of the history, and behind the newest
one there is one more, where the line is that they were typing. Each arrow is one step, the two ends
stop it, and whoever comes back to the last place finds their line as they left it.

The editor does not hold this walk. It has no place while the user is at their line, the line moves
into what is remembered when they leave it, and each end of the history is a case of its own.
`HistoryWalk` is the walk as the user has it in mind, and `HistoryWalk.editor` is how the editor
holds one. A stroke on the editor then is a stroke on the walk, whatever the history and wherever
the walk has come to, and so is any number of strokes.

An edit ends the walk. What was on the screen, with the edit made in it, is the line from then on,
even if it came from the history. So the next walk may be one through another history.

## Main definitions

* `Arrow`, `Edit`, `Stroke`: What a user does to the line.
* `Arrow.move`: One step among the places.
* `HistoryWalk`, `HistoryWalk.stroke`: The walk, and what a stroke makes of it.
* `HistoryWalk.editor`: How an editor holds a walk.

## Theorems

* `Editor.edit_eq`: An edit leaves the history, and is made in the text on the screen.
* `HistoryWalk.editor_stroke`, `HistoryWalk.editor_strokes`: The editor does what the walk does.
* `HistoryWalk.strokes_arrows`: Arrows alone move the place, and keep the line.
* `Editor.strokes_up`: The up key, as often as an entry is from the end, shows the entry.
* `Editor.scrollback_walk`: All of this for an editor that is at its live line.
-/

namespace TreeShell

/-- A key that scrolls. -/
inductive Arrow where
  | up
  | down
  deriving DecidableEq, Repr

/-- What is done to the text itself. -/
inductive Edit where
  | type (c : Char)
  | erase
  | complete
  /-- The line is taken, and an empty one begun. -/
  | submit
  deriving DecidableEq, Repr

/-- What a user does to the line that they have in front of them. -/
inductive Stroke where
  | arrow (a : Arrow)
  | edit (x : Edit)
  /-- The key that clears the screen. -/
  | clear
  deriving DecidableEq, Repr

namespace Arrow

def key : Arrow → Key
  | up => .arrowUp
  | down => .arrowDown

/-- One step from a place towards the oldest entry, or towards the last place. -/
def move (last place : Nat) : Arrow → Nat
  | up => if place = 0 then place else place - 1
  | down => if place = last then place else place + 1

theorem move_le {last place : Nat} (h : place ≤ last) (a : Arrow) : a.move last place ≤ last := by
  cases a with
  | up =>
      rw [move]
      split
      · exact h
      · omega
  | down =>
      rw [move]
      split
      · exact h
      · omega

/-- So no number of steps leads past either end. -/
theorem foldl_move_le {last place : Nat} (h : place ≤ last) (arrows : List Arrow) :
    arrows.foldl (move last) place ≤ last := by
  induction arrows generalizing place with
  | nil => exact h
  | cons a arrows ih => exact ih (move_le h a)

/-- Steps towards the oldest entry lead there at most. -/
theorem foldl_move_up (last place steps : Nat) :
    (List.replicate steps up).foldl (move last) place = place - steps := by
  induction steps generalizing place with
  | zero => rfl
  | succ steps ih =>
      have hmove : up.move last place = place - 1 := by
        rw [move]
        split <;> omega
      rw [List.replicate_succ, List.foldl_cons, ih, hmove]
      omega

end Arrow

namespace Editor

/-- The editor after an edit. -/
def edit (v : View) (e : Editor) : Edit → Editor
  | .type c => e.press (.char c) v
  | .erase => e.press .backspace v
  | .complete => e.press .tab v
  | .submit => e.submit.2

/-- The text that an edit makes of the one on the screen. -/
def edited (v : View) (e : Editor) : Edit → String
  | .type c => e.buffer.push c
  | .erase => String.ofList e.buffer.toList.dropLast
  | .complete => (e.complete v).buffer
  | .submit => ""

/-- The editor after a stroke. -/
def stroke (v : View) (e : Editor) : Stroke → Editor
  | .arrow a => e.press a.key v
  | .edit x => e.edit v x
  | .clear => e.press .clearScreen v

/-- The editor after strokes, one after the other. -/
def strokes (v : View) (e : Editor) (strokes : List Stroke) : Editor := strokes.foldl (stroke v) e

/-- An edit leaves the history, and is made in the text on the screen. -/
theorem edit_eq (v : View) (e : Editor) (x : Edit) :
    (e.edit v x).scroll = .live ∧ (e.edit v x).buffer = e.edited v x := by
  cases x with
  | type c => exact ⟨rfl, rfl⟩
  | erase => exact ⟨rfl, rfl⟩
  | complete =>
      rw [edit, edited, tab_eq]
      exact ⟨rfl, rfl⟩
  | submit => exact ⟨rfl, rfl⟩

end Editor

/-- A walk through the history. The entries are its places, from the oldest one on, and behind the
    newest one is the place of the line. -/
structure HistoryWalk where
  /-- The line that was left to scroll, and that is come back to. -/
  line : String
  place : Nat
  /-- What the completion remembers. -/
  completion : Completion := .idle

namespace HistoryWalk

variable (v : View)

/-- The text at the place. -/
def shown (w : HistoryWalk) : String := v.history[w.place]?.getD w.line

/-- An editor that holds the walk. -/
def editor (w : HistoryWalk) : Editor where
  buffer := w.shown v
  scroll := if w.place = v.history.length then .live else .browsing w.place w.line
  completion := w.completion

/-- The walk after a stroke. An edit makes what it leaves on the screen the line. -/
def stroke (w : HistoryWalk) : Stroke → HistoryWalk
  | .arrow a => ⟨w.line, a.move v.history.length w.place, .idle⟩
  | .edit x =>
    ⟨(w.editor v).edited v x, v.history.length, ((w.editor v).edit v x).completion⟩
  | .clear => { w with completion := .idle }

/-- The walk after strokes, one after the other. -/
def strokes (w : HistoryWalk) (strokes : List Stroke) : HistoryWalk := strokes.foldl (stroke v) w

variable {v}

/-- At the last place the line itself is shown. -/
theorem editor_last (line : String) (completion : Completion) :
    (⟨line, v.history.length, completion⟩ : HistoryWalk).editor v = ⟨line, .live, completion⟩ := by
  rw [editor, shown, List.getElem?_eq_none (Nat.le_refl _), Option.getD_none, if_pos rfl]

/-- Before it, an entry is. -/
theorem editor_entry {place : Nat} (h : place < v.history.length) (line : String)
    (completion : Completion) :
    (⟨line, place, completion⟩ : HistoryWalk).editor v =
      ⟨v.history[place], .browsing place line, completion⟩ := by
  rw [editor, shown, List.getElem?_eq_getElem h, Option.getD_some, if_neg (Nat.ne_of_lt h)]

/-- The editor goes back as the walk does. -/
theorem scrollUp_editor {place : Nat} (h : place ≤ v.history.length) (line : String)
    (completion : Completion) :
    ((⟨line, place, completion⟩ : HistoryWalk).editor v).scrollUp v.history =
      (⟨line, Arrow.up.move v.history.length place, completion⟩ : HistoryWalk).editor v := by
  rcases Nat.lt_or_eq_of_le h with hentry | rfl
  · rw [editor_entry hentry, Editor.scrollUp]
    -- The oldest entry is the one end at which the editor stays.
    cases place with
    | zero => rw [Arrow.move, if_pos rfl, editor_entry hentry]
    | succ before =>
        have hbefore : before < v.history.length := by omega
        rw [Arrow.move, if_neg (Nat.succ_ne_zero _), Nat.add_sub_cancel, editor_entry hbefore]
        dsimp only
        rw [List.getElem?_eq_getElem hbefore, Option.getD_some]
  · rw [editor_last, Editor.scrollUp]
    cases hlength : v.history.length with
    | zero =>
        -- Without a history there is nowhere to go.
        have hstays := editor_last (v := v) line completion
        rw [hlength] at hstays
        rw [Arrow.move, if_pos rfl, hstays]
    | succ newest =>
        have hnewest : newest < v.history.length := by omega
        rw [Arrow.move, if_neg (Nat.succ_ne_zero _), Nat.add_sub_cancel, editor_entry hnewest]
        dsimp only
        rw [List.getElem?_eq_getElem hnewest, Option.getD_some]

/-- It goes forward as the walk does. -/
theorem scrollDown_editor {place : Nat} (h : place ≤ v.history.length) (line : String)
    (completion : Completion) :
    ((⟨line, place, completion⟩ : HistoryWalk).editor v).scrollDown v.history =
      (⟨line, Arrow.down.move v.history.length place, completion⟩ : HistoryWalk).editor v := by
  rcases Nat.lt_or_eq_of_le h with hentry | rfl
  · rw [editor_entry hentry, Editor.scrollDown, Arrow.move, if_neg (Nat.ne_of_lt hentry)]
    dsimp only
    rcases Nat.lt_or_eq_of_le (show place + 1 ≤ v.history.length from hentry) with hnext | hnext
    · rw [editor_entry hnext, List.getElem?_eq_getElem hnext]
    · -- Behind the newest entry there is none, and the line comes back.
      rw [hnext, editor_last, List.getElem?_eq_none (Nat.le_refl _)]
  · rw [editor_last, Editor.scrollDown, Arrow.move, if_pos rfl, editor_last]

/-- A stroke on an editor that holds a walk is a stroke on the walk. -/
theorem editor_stroke {w : HistoryWalk} (h : w.place ≤ v.history.length) (s : Stroke) :
    (w.editor v).stroke v s = (w.stroke v s).editor v := by
  cases s with
  | arrow a =>
      cases a with
      | up => exact scrollUp_editor h w.line .idle
      | down => exact scrollDown_editor h w.line .idle
  | edit x =>
      rcases (w.editor v).edit_eq v x with ⟨hlive, htext⟩
      rw [stroke, editor_last, Editor.stroke, ← hlive, ← htext]
  | clear => rfl

/-- No stroke leads past the last place. -/
theorem place_stroke_le {w : HistoryWalk} (h : w.place ≤ v.history.length) (s : Stroke) :
    (w.stroke v s).place ≤ v.history.length := by
  cases s with
  | arrow a => exact Arrow.move_le h a
  | edit x => exact Nat.le_refl _
  | clear => exact h

/-- So any number of strokes is, by induction on them. -/
theorem editor_strokes {w : HistoryWalk} (h : w.place ≤ v.history.length) (strokes : List Stroke) :
    (w.editor v).strokes v strokes = (w.strokes v strokes).editor v := by
  induction strokes generalizing w with
  | nil => rfl
  | cons s strokes ih =>
      rw [Editor.strokes, HistoryWalk.strokes, List.foldl_cons, List.foldl_cons, editor_stroke h s]
      exact ih (place_stroke_le h s)

/-- Arrows move the place, and keep the line. -/
theorem strokes_arrows (w : HistoryWalk) (arrows : List Arrow) :
    ∃ completion, w.strokes v (arrows.map .arrow) =
      ⟨w.line, arrows.foldl (Arrow.move v.history.length) w.place, completion⟩ := by
  induction arrows generalizing w with
  | nil => exact ⟨w.completion, rfl⟩
  | cons a arrows ih => exact ih (w.stroke v (.arrow a))

end HistoryWalk

namespace Editor

/-- An editor at its live line holds a walk that has come to its last place. -/
theorem eq_editor_of_live {e : Editor} (h : e.scroll = .live) (v : View) :
    e = (⟨e.buffer, v.history.length, e.completion⟩ : HistoryWalk).editor v := by
  rw [HistoryWalk.editor_last, ← h]

/-- So many presses of the up key lead from the live line to the entry that so many come behind. -/
theorem strokes_up {e : Editor} (hlive : e.scroll = .live) {v : View} {place : Nat}
    (hplace : place < v.history.length) :
    ∃ completion, e.strokes v (List.replicate (v.history.length - place) (.arrow .up)) =
      ⟨v.history[place], .browsing place e.buffer, completion⟩ := by
  let w : HistoryWalk := ⟨e.buffer, v.history.length, e.completion⟩
  have hheld : e = w.editor v := eq_editor_of_live hlive v
  rcases w.strokes_arrows (v := v) (List.replicate (v.history.length - place) .up) with
    ⟨completion, hwalk⟩
  rw [List.map_replicate, Arrow.foldl_move_up, Nat.sub_sub_self (Nat.le_of_lt hplace)] at hwalk
  refine ⟨completion, ?_⟩
  calc e.strokes v (List.replicate (v.history.length - place) (.arrow .up))
      = (w.editor v).strokes v (List.replicate (v.history.length - place) (.arrow .up)) := by
        rw [← hheld]
    _ = (w.strokes v (List.replicate (v.history.length - place) (.arrow .up))).editor v :=
        HistoryWalk.editor_strokes (Nat.le_refl _) _
    _ = ⟨v.history[place], .browsing place e.buffer, completion⟩ := by
        rw [hwalk, HistoryWalk.editor_entry hplace]

/-- From its live line, an editor walks through the history. Arrows lead from the last place to the
    place that their steps lead to, and no further than the two ends. If that is the last place, the
    line is back; at any other place its entry shows, and the line is remembered. Whatever is done
    besides, the editor holds the walk on which it is done. And wherever an editor is, an edit makes
    what is on the screen, edited, the live line from which the next walk begins, in whatever
    history that is. -/
theorem scrollback_walk {e : Editor} (hlive : e.scroll = .live) (v : View) :
    (∀ arrows : List Arrow,
      let p := arrows.foldl (Arrow.move v.history.length) v.history.length
      let after := e.strokes v (arrows.map .arrow)
      (p = v.history.length → after.scroll = .live ∧ after.buffer = e.buffer) ∧
      (p ≠ v.history.length →
        after.scroll = .browsing p e.buffer ∧ v.history[p]? = some after.buffer)) ∧
    (∀ strokes, e.strokes v strokes =
      ((⟨e.buffer, v.history.length, e.completion⟩ : HistoryWalk).strokes v strokes).editor v) ∧
    ∀ (shown : Editor) (x : Edit) (w : View),
      (shown.edit w x).scroll = .live ∧ (shown.edit w x).buffer = shown.edited w x := by
  have hheld : ∀ strokes, e.strokes v strokes =
      ((⟨e.buffer, v.history.length, e.completion⟩ : HistoryWalk).strokes v strokes).editor v := by
    intro strokes
    conv => lhs; rw [eq_editor_of_live hlive v]
    exact HistoryWalk.editor_strokes (Nat.le_refl _) strokes
  refine ⟨fun arrows => ?_, hheld, fun shown x w => shown.edit_eq w x⟩
  rcases HistoryWalk.strokes_arrows (v := v) ⟨e.buffer, v.history.length, e.completion⟩ arrows with
    ⟨completion, hwalk⟩
  intro p after
  have hafter : after = (⟨e.buffer, p, completion⟩ : HistoryWalk).editor v := by
    rw [← hwalk]
    exact hheld _
  rw [hafter]
  constructor
  · intro hlast
    rw [hlast, HistoryWalk.editor_last]
    exact ⟨rfl, rfl⟩
  · intro hne
    have hle : p ≤ v.history.length := Arrow.foldl_move_le (Nat.le_refl _) arrows
    have hentry : p < v.history.length := Nat.lt_of_le_of_ne hle hne
    rw [HistoryWalk.editor_entry hentry]
    exact ⟨rfl, List.getElem?_eq_getElem hentry⟩

/-- Up past the oldest entry, and down again past the newest one, to the line as it was left. -/
theorem scrollback_walk_back :
    let v : View := ⟨.empty, .home "u", .home "u", ["pwd", "cd docs"], ["cd", "pwd"]⟩
    let e : Editor := { buffer := "ca" }
    (e.strokes v [.arrow .up, .arrow .up, .arrow .up, .arrow .down]).buffer = "cd docs" ∧
      (e.strokes v [.arrow .up, .arrow .up, .arrow .up, .arrow .down]).scroll =
        .browsing 1 "ca" ∧
      (e.strokes v [.arrow .up, .arrow .down, .arrow .down]).buffer = "ca" ∧
      ((e.strokes v [.arrow .up]).edit v (.type '/')).buffer = "cd docs/" := by
  intro v e
  have hwalk := scrollback_walk (e := e) rfl v
  have haway := (hwalk.1 [.up, .up, .up, .down]).2 (by decide)
  have hback := (hwalk.1 [.up, .down, .down]).1 (by decide)
  refine ⟨?_, haway.1, hback.2, ?_⟩
  · exact (Option.some.inj haway.2).symm
  · exact (hwalk.2.2 (e.strokes v [.arrow .up]) (.type '/') v).2

end Editor

end TreeShell
