import TreeShell.Snapshot.Number

/-!
# Numbers as They Are Written

A number has no bracket that would close it: the scanner goes on as long as the characters could
belong to it. So a written number is read as a whole only where something else follows (`Stops`). In
a document it does, since no value is followed by a digit, a point or the letter of an exponent.

What a number is worth makes no difference here. Where it is passed over only its form is checked,
and where a node is expected every number is refused.

## Main definitions

* `Snapshot.Number`: A number as it is written.
* `Snapshot.Stops`: No number goes on here.

## Theorems

* `numeral_number`: A written number is read up to its end.
-/

namespace TreeShell.Snapshot

/-- One digit or more. -/
def Digits (ds : List Char) : Prop := ds ≠ [] ∧ ∀ c ∈ ds, c.isDigit

/-- The digits before the point: a zero begins no longer number. -/
def Whole (ds : List Char) : Prop := Digits ds ∧ (ds.head? = some '0' → ds = ['0'])

/-- A point and the digits after it, or nothing. -/
inductive Fraction : List Char → Prop where
  | none : Fraction []
  | some {ds : List Char} (h : Digits ds) : Fraction ('.' :: ds)

/-- The letter of an exponent, its sign and its digits, or nothing. -/
inductive Exponent : List Char → Prop where
  | none : Exponent []
  | some {e : Char} {sign ds : List Char} (letter : e ∈ ['e', 'E'])
      (hsign : sign ∈ [[], ['+'], ['-']]) (h : Digits ds) : Exponent (e :: (sign ++ ds))

/-- A number as it is written. -/
inductive Number : List Char → Prop where
  | intro {sign whole fraction exponent : List Char} (hsign : sign ∈ [[], ['-']])
      (hwhole : Whole whole) (hfraction : Fraction fraction) (hexponent : Exponent exponent) :
      Number (sign ++ (whole ++ (fraction ++ exponent)))

/-- No digit stands next. -/
def NoDigit (r : List Char) : Prop := ∀ c ∈ r.head?, c.isDigit = false

/-- Nothing stands next that could belong to a number. -/
def Stops (r : List Char) : Prop :=
  ∀ c ∈ r.head?, c.isDigit = false ∧ c ≠ '.' ∧ c ≠ 'e' ∧ c ≠ 'E'

theorem stops_cons {c : Char} (h : c.isDigit = false ∧ c ≠ '.' ∧ c ≠ 'e' ∧ c ≠ 'E')
    (r : List Char) : Stops (c :: r) := by
  intro d hd
  rwa [← Option.some.inj hd]

theorem Stops.noDigit {r : List Char} (h : Stops r) : NoDigit r := fun c hc => (h c hc).1

theorem ne_of_isDigit {c d : Char} (hc : c.isDigit) (hd : d.isDigit = false) : c ≠ d := by
  rintro rfl
  rw [hd] at hc
  cases hc

/-- The digits are taken up to the first character that is none. -/
theorem digits1_digits {ds r : List Char} (h : Digits ds) (hr : NoDigit r) :
    digits1 (ds ++ r) = .ok (ds, r) := by
  have hnone : r.takeWhile Char.isDigit = [] ∧ r.dropWhile Char.isDigit = r := by
    cases r with
    | nil => exact ⟨rfl, rfl⟩
    | cons c r =>
        have hc : ¬ c.isDigit = true := by
          rw [hr c rfl]
          exact Bool.false_ne_true
        exact ⟨List.takeWhile_cons_of_neg hc, List.dropWhile_cons_of_neg hc⟩
  have htake : (ds ++ r).takeWhile Char.isDigit = ds := by
    rw [List.takeWhile_append_of_pos h.2, hnone.1, List.append_nil]
  have hdrop : (ds ++ r).dropWhile Char.isDigit = r := by
    rw [List.dropWhile_append_of_pos h.2, hnone.2]
  rcases ds with _ | ⟨d, ds⟩
  · exact absurd rfl h.1
  · simp only [digits1, htake, hdrop]

/-- Only a zero that other digits follow is no whole part. -/
theorem wholePart_whole {ds r : List Char} (h : Whole ds) (hr : NoDigit r) :
    wholePart (ds ++ r) = .ok (ds, r) := by
  rw [wholePart, digits1_digits h.1 hr]
  simp only [bind, Except.bind]
  split
  · exact absurd (h.2 rfl) (by simp)
  · rfl

theorem fractionPart_fraction {f r : List Char} (h : Fraction f) (hr : NoDigit r)
    (hpoint : r.head? ≠ some '.') : ∃ ds, fractionPart (f ++ r) = .ok (ds, r) := by
  cases h with
  | none =>
      refine ⟨[], ?_⟩
      rw [List.nil_append, fractionPart.eq_def]
      split
      · exact absurd rfl hpoint
      · rfl
  | some h => exact ⟨_, digits1_digits h hr⟩

theorem exponentPart_exponent {e r : List Char} (h : Exponent e) (hr : Stops r) :
    ∃ x, exponentPart (e ++ r) = .ok (x, r) := by
  cases h with
  | none =>
      refine ⟨none, ?_⟩
      cases r with
      | nil => rfl
      | cons c r =>
          have hc : ¬ (c = 'e' ∨ c = 'E') := not_or.2 (hr c rfl).2.2
          simp only [List.nil_append, exponentPart, if_neg hc]
  | @some e sign ds letter hsign h =>
      have hletter : e = 'e' ∨ e = 'E' := by simpa using letter
      have hdigits := digits1_digits h hr.noDigit
      have hsign' : sign = [] ∨ sign = ['+'] ∨ sign = ['-'] := by simpa using hsign
      rcases hsign' with rfl | rfl | rfl
      · -- Without a sign the first digit follows the letter, and it is no sign.
        rcases ds with _ | ⟨d, ds⟩
        · exact absurd rfl h.1
        · have hd : d.isDigit := h.2 d List.mem_cons_self
          refine ⟨some (false, d :: ds), ?_⟩
          simp only [List.cons_append, List.nil_append] at hdigits ⊢
          rw [exponentPart, if_pos hletter]
          · simp only [hdigits]
            rfl
          · exact fun rest heq => absurd (List.cons.inj heq).1 (ne_of_isDigit hd rfl)
          · exact fun rest heq => absurd (List.cons.inj heq).1 (ne_of_isDigit hd rfl)
      · refine ⟨some (false, ds), ?_⟩
        simp only [List.cons_append, List.nil_append, exponentPart, if_pos hletter, hdigits]
        rfl
      · refine ⟨some (true, ds), ?_⟩
        simp only [List.cons_append, List.nil_append, exponentPart, if_pos hletter, hdigits]
        rfl

/-- A number begins with a digit or a minus. -/
theorem Number.head {n : List Char} (h : Number n) :
    ∃ c t, n = c :: t ∧ (c = '-' ∨ c.isDigit) := by
  cases h with
  | @intro sign whole fraction exponent hsign hwhole hfraction hexponent =>
      have hsign' : sign = [] ∨ sign = ['-'] := by simpa using hsign
      rcases whole with _ | ⟨d, ds⟩
      · exact absurd rfl hwhole.1.1
      · rcases hsign' with rfl | rfl
        · exact ⟨d, _, rfl, .inr (hwhole.1.2 d List.mem_cons_self)⟩
        · exact ⟨'-', _, rfl, .inl rfl⟩

theorem ne_of_begins {c d : Char} (hc : c = '-' ∨ c.isDigit) (hd : d ≠ '-' ∧ d.isDigit = false) :
    c ≠ d := by
  rcases hc with rfl | hc
  · exact hd.1.symm
  · exact ne_of_isDigit hc hd.2

/-- What comes after the digits of a number is no digit. -/
theorem noDigit_exponent {e r : List Char} (h : Exponent e) (hr : Stops r) :
    NoDigit (e ++ r) ∧ (e ++ r).head? ≠ some '.' := by
  cases h with
  | none => exact ⟨hr.noDigit, fun hpoint => (hr '.' hpoint).2.1 rfl⟩
  | @some e sign ds letter hsign h =>
      have hletter : e = 'e' ∨ e = 'E' := by simpa using letter
      have he : e.isDigit = false ∧ e ≠ '.' := by rcases hletter with rfl | rfl <;> decide
      constructor
      · intro c hc
        rw [← Option.some.inj hc]
        exact he.1
      · exact fun hpoint => he.2 (Option.some.inj hpoint)

/-- A written number is read up to its end. -/
theorem numeral_number {n r : List Char} (h : Number n) (hr : Stops r) :
    ∃ m, numeral (n ++ r) = .ok (m, r) := by
  cases h with
  | @intro sign whole fraction exponent hsign hwhole hfraction hexponent =>
      have hpoint := noDigit_exponent hexponent hr
      -- Each part is read up to the next one, so what comes next must not look like more of it.
      have hdigit : NoDigit (fraction ++ (exponent ++ r)) := by
        cases hfraction with
        | none => exact hpoint.1
        | some h =>
            intro c hc
            rw [← Option.some.inj hc]
            rfl
      have hw := wholePart_whole hwhole hdigit
      rcases fractionPart_fraction hfraction hpoint.1 hpoint.2 with ⟨f, hf⟩
      rcases exponentPart_exponent hexponent hr with ⟨x, hx⟩
      have hsign' : sign = [] ∨ sign = ['-'] := by simpa using hsign
      rw [List.append_assoc, List.append_assoc, List.append_assoc]
      rcases hsign' with rfl | rfl
      · refine ⟨⟨false, whole, f, x⟩, ?_⟩
        rcases whole with _ | ⟨d, ds⟩
        · exact absurd rfl hwhole.1.1
        · have hd : d ≠ '-' := ne_of_isDigit (hwhole.1.2 d List.mem_cons_self) rfl
          rw [List.nil_append, numeral]
          · simp only [hw, hf, hx, bind, Except.bind]
            rfl
          · exact fun rest heq => hd (List.cons.inj heq).1
      · refine ⟨⟨true, whole, f, x⟩, ?_⟩
        simp only [List.cons_append, List.nil_append, numeral, hw, hf, hx, bind, Except.bind]
        rfl

end TreeShell.Snapshot
