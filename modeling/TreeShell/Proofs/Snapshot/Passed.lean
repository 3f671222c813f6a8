import Mathlib.Data.List.DropRight
import TreeShell.Proofs.Snapshot.Document
import TreeShell.Snapshot.Pass

/-!
# Passing Over What Is Written

A value that is passed over has to be one, whatever it holds. The pass keeps its own list of open
brackets instead of recursing, so the induction is on the document, for any brackets around it: a
value is passed with the brackets open that were open before, and what is left of an array or an
object is passed together with its bracket.

Both kinds of bracket go the same way. Only what comes before the value of an item differs, and
`passesRest_item` leaves that open. The number of turns is counted along: each turn takes a
character or goes on to the first item of a bracket, whose own characters pay for it.

## Main definitions

* `Snapshot.PassesValue`, `Snapshot.PassesRest`: A value, and what is left inside a bracket, is
  passed in few enough turns.

## Theorems

* `passesRest_item`: An item of either bracket is passed.
* `Json.passed`: A written value is passed, whatever brackets are open.
* `passValue_spelled`: So `passValue` comes to the end of the value.
-/

namespace TreeShell.Snapshot

theorem colon_blanks {b : List Char} (hb : Blanks b) (s : List Char) :
    colon (b ++ ':' :: s) = .ok s := by
  rw [colon, skipSpace_blanks hb, skipSpace_cons rfl]
  rfl

theorem passScalar_number {n r : List Char} (h : Number n) (hr : Stops r) :
    passScalar (n ++ r) = .ok r := by
  rcases numeral_number h hr with ⟨m, hm⟩
  rcases h.head with ⟨c, t, rfl, hc⟩
  rw [List.cons_append] at hm ⊢
  rw [passScalar, if_pos hc, hm]
  all_goals exact ne_of_begins hc (by decide)

/-- A value is looked for after the blanks. -/
theorem passOpen_skipSpace (bound : Nat) (opened : List Bracket) (s : List Char) :
    passOpen bound .value opened (skipSpace s) = passOpen bound .value opened s := by
  cases bound with
  | zero => rfl
  | succ bound => rw [passOpen, passOpen, skipSpace, skipSpace, List.dropWhile_idempotent]

/-- The turn that is due before an item. -/
def turn : Bool → Turn
  | true => .first
  | false => .next

/-- One turn closes a bracket. -/
theorem passOpen_close {b : List Char} (hb : Blanks b) (bracket : Bracket) (first : Bool)
    (bound : Nat) (outer : List Bracket) (r : List Char) :
    passOpen (bound + 1) (turn first) (bracket :: outer) (b ++ bracket.close :: r) =
      passOpen bound .next outer r := by
  have hclose : skipSpace (b ++ bracket.close :: r) = bracket.close :: r := by
    rw [skipSpace_blanks hb, skipSpace_cons (by cases bracket <;> rfl)]
  have hcomma : bracket.close ≠ ',' := by cases bracket <;> decide
  cases first with
  | true => simp only [turn, passOpen, hclose, if_true]
  | false => simp only [turn, passOpen, hclose, if_neg hcomma, if_true]

/-- One turn goes on to an item, which does not begin like the end of its bracket. -/
theorem passOpen_separator {first : Bool} {sep : List Char} (hsep : Separator first sep)
    {bracket : Bracket} {s : List Char} (hs : ∃ c t, skipSpace s = c :: t ∧ c ≠ bracket.close)
    (bound : Nat) (outer : List Bracket) :
    passOpen (bound + 1) (turn first) (bracket :: outer) (sep ++ s) =
      passKey bracket s >>= passOpen bound .value (bracket :: outer) := by
  cases hsep with
  | first =>
      -- Before the first item nothing tells the two turns apart but how the item begins.
      rcases hs with ⟨c, t, hs, hc⟩
      rw [List.nil_append, turn, passOpen, hs]
      simp only [if_neg hc]
      rw [← hs]
      cases bracket with
      | array => exact passOpen_skipSpace bound _ s
      | object => simp only [passKey, skipSpace, List.dropWhile_idempotent]
  | next hb =>
      rw [List.append_assoc, turn, passOpen, skipSpace_blanks hb, List.singleton_append,
        skipSpace_cons rfl]
      simp only [if_true]

/-- A key and its colon are passed. -/
theorem passKey_key {b b' : List Char} {text k : List Char} (hb : Blanks b) (hk : Key text k)
    (hb' : Blanks b') (s : List Char) :
    passKey .object (b ++ '"' :: (k ++ '"' :: (b' ++ ':' :: s))) = .ok s := by
  have hquote : word ['"'] ('"' :: (k ++ '"' :: (b' ++ ':' :: s))) =
      .ok (k ++ '"' :: (b' ++ ':' :: s)) := rfl
  rw [passKey, skipSpace_blanks hb, skipSpace_cons rfl, hquote]
  simp only [bind, Except.bind, passLiteral_literal hk.literal, colon_blanks hb']

/-- A value is passed in less than two turns for each character, whatever brackets are open. -/
def PassesValue (cs : List Char) : Prop :=
  ∃ steps < 2 * cs.length, ∀ bound opened r, Stops r →
    passOpen (bound + steps) .value opened (cs ++ r) = passOpen bound .next opened r

/-- What is left inside a bracket is passed and the bracket closed, in at most so many turns. -/
def PassesRest (bracket : Bracket) (first : Bool) (cs : List Char) : Prop :=
  ∃ steps ≤ 2 * cs.length, ∀ bound outer r,
    passOpen (bound + steps) (turn first) (bracket :: outer) (cs ++ r) =
      passOpen bound .next outer r

theorem passesValue_scalar {b t : List Char} {c : Char} (hb : Blanks b)
    (hspace : isSpace c = false) (harray : c ≠ '[') (hobject : c ≠ '{')
    (h : ∀ r, Stops r → passScalar (c :: (t ++ r)) = .ok r) : PassesValue (b ++ c :: t) := by
  refine ⟨1, by simp only [List.length_append, List.length_cons]; omega, ?_⟩
  intro bound opened r hr
  rw [List.append_assoc, passOpen, skipSpace_blanks hb, List.cons_append, skipSpace_cons hspace]
  split
  · rename_i heq
    exact absurd (List.cons.inj heq).1 harray
  · rename_i heq
    exact absurd (List.cons.inj heq).1 hobject
  · rw [h r hr]
    rfl

/-- A value that is a bracket with what is left inside it. The bracket is one character more, and it
    takes one turn to open. -/
theorem passesValue_bracket {b cs : List Char} {c : Char} {bracket : Bracket} (hb : Blanks b)
    (hopens : ∀ bound opened s,
      passOpen (bound + 1) .value opened (c :: s) = passOpen bound .first (bracket :: opened) s)
    (h : PassesRest bracket true cs) : PassesValue (b ++ c :: cs) := by
  rcases h with ⟨steps, hsteps, hpass⟩
  refine ⟨steps + 1, by simp only [List.length_append, List.length_cons]; omega, ?_⟩
  intro bound opened r _
  rw [List.append_assoc, ← Nat.add_assoc, ← passOpen_skipSpace, skipSpace_blanks hb,
    passOpen_skipSpace, List.cons_append, hopens]
  exact hpass bound opened r

theorem passesRest_end {b : List Char} (hb : Blanks b) (bracket : Bracket) (first : Bool) :
    PassesRest bracket first (b ++ [bracket.close]) := by
  refine ⟨1, by simp only [List.length_append, List.length_cons]; omega, ?_⟩
  intro bound outer r
  rw [List.append_assoc]
  exact passOpen_close hb bracket first bound outer r

/-- An item: its separator, what stands before its value, the value, and what is left. The turn of
    the separator is what values have to spare, since the first item has none. -/
theorem passesRest_item {bracket : Bracket} {first : Bool} {sep v cs : List Char}
    (hsep : Separator first sep) (before : List Char)
    (hbegins : ∀ r, ∃ c t, skipSpace (before ++ (v ++ r)) = c :: t ∧ c ≠ bracket.close)
    (hbefore : ∀ r, passKey bracket (before ++ r) = .ok r) (hvalue : PassesValue v)
    (hstops : ∀ r, Stops (cs ++ r)) (hrest : PassesRest bracket false cs) :
    PassesRest bracket first (sep ++ (before ++ (v ++ cs))) := by
  rcases hvalue with ⟨steps, hsteps, hvalue⟩
  rcases hrest with ⟨more, hmore, hrest⟩
  refine ⟨more + (steps + 1), by simp only [List.length_append]; omega, ?_⟩
  intro bound outer r
  have hshape : sep ++ (before ++ (v ++ cs)) ++ r = sep ++ (before ++ (v ++ (cs ++ r))) := by
    simp only [List.append_assoc]
  rw [hshape, ← Nat.add_assoc, ← Nat.add_assoc, passOpen_separator hsep (hbegins _), hbefore]
  exact (hvalue (bound + more) (bracket :: outer) (cs ++ r) (hstops r)).trans (hrest bound outer r)

mutual

/-- A written value is passed, whatever brackets are open. -/
theorem Json.passed : (j : Json) → {cs : List Char} → j.Spelled cs → PassesValue cs
  | .null, _, .null hb => passesValue_scalar hb rfl (by decide) (by decide) fun _ _ => rfl
  | .bool true, _, .yes hb => passesValue_scalar hb rfl (by decide) (by decide) fun _ _ => rfl
  | .bool false, _, .no hb => passesValue_scalar hb rfl (by decide) (by decide) fun _ _ => rfl
  | .number n, _, .number hb hn => by
      rcases hn.head with ⟨c, t, rfl, hc⟩
      exact passesValue_scalar hb (isSpace_of_begins hc) (ne_of_begins hc (by decide))
        (ne_of_begins hc (by decide)) fun r hr => passScalar_number hn hr
  | .string raw, _, .string hb hraw => by
      refine passesValue_scalar hb rfl (by decide) (by decide) fun r _ => ?_
      rw [List.append_assoc]
      exact passLiteral_literal hraw r
  | .array items, _, .array hb h => passesValue_bracket hb (fun _ _ _ => rfl) (items.passed h)
  | .object members, _, .object hb h => passesValue_bracket hb (fun _ _ _ => rfl) (members.passed h)

theorem Items.passed : (items : Items) → {first : Bool} → {cs : List Char} →
    items.Spelled first cs → PassesRest .array first cs
  | .nil, first, _, .nil hb => passesRest_end hb .array first
  | .cons value rest, _, _, .cons hsep hvalue hrest =>
      passesRest_item hsep [] hvalue.head (fun _ => rfl) (value.passed hvalue) hrest.stops
        (rest.passed hrest)

theorem Members.passed : (members : Members) → {first : Bool} → {cs : List Char} →
    members.Spelled first cs → PassesRest .object first cs
  | .nil, first, _, .nil hb => passesRest_end hb .object first
  | .cons key value rest, first, _, @Members.Spelled.cons _ _ _ _ sep b k b' v cs hsep hb hkey hb'
      hvalue hrest => by
      have hshape (s : List Char) : b ++ '"' :: (k ++ '"' :: (b' ++ ':' :: s)) =
          b ++ '"' :: (k ++ '"' :: (b' ++ [':'])) ++ s := by
        simp only [List.append_assoc, List.cons_append, List.nil_append]
      rw [hshape]
      refine passesRest_item hsep _ (fun r => ?_) (fun r => ?_) (value.passed hvalue) hrest.stops
        (rest.passed hrest)
      · rw [← hshape, skipSpace_blanks hb]
        exact ⟨_, _, rfl, by decide⟩
      · rw [← hshape]
        exact passKey_key hb hkey hb' r

end

/-- A written value is passed. -/
theorem passValue_spelled {j : Json} {cs : List Char} (h : j.Spelled cs) {r : List Char}
    (hr : Stops r) : passValue (cs ++ r) = .ok r := by
  rcases j.passed h with ⟨steps, hsteps, hpass⟩
  obtain ⟨spare, hspare⟩ : ∃ spare, 2 * (cs ++ r).length + 2 = spare + 1 + steps := by
    rw [List.length_append]
    exact ⟨2 * (cs.length + r.length) + 1 - steps, by omega⟩
  rw [passValue, hspare, hpass _ _ r hr]
  rfl

end TreeShell.Snapshot
