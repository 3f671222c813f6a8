import TreeShell.Snapshot.Scan

/-!
# String Literals as They Are Written

One text can be written as a string literal in many ways: most characters may stand for themselves,
some have a short escape, and every one can be given by its code units, which are two for a
character beyond sixteen bits. The scanners are checked here against a description of all these
ways that knows nothing of scanning.

There are two descriptions because there are two readings. A key is written character by character
(`Spelling`), and the scanner finds its text. A literal that is only passed over need not have a
text at all, since half of a pair may stand alone in it; it is made of pieces (`Piece`). Every key
is such a literal too.

## Main definitions

* `Snapshot.Blanks`: Nothing but blanks.
* `Snapshot.CodeUnit`: Four digits that are a code unit.
* `Snapshot.Spelling`, `Snapshot.Key`: A character, and a text, as it is written in a literal.
* `Snapshot.Piece`, `Snapshot.Literal`: The same where no text is asked for.

## Theorems

* `skipSpace_blanks`: Blanks are skipped.
* `literal_key`: A key is read as its text.
* `Key.literal`: A key is a literal.
* `passLiteral_literal`: Every literal is passed.
-/

namespace TreeShell.Snapshot

/-- Nothing but blanks. -/
def Blanks (cs : List Char) : Prop := ∀ c ∈ cs, isSpace c

/-- The characters that may follow a backslash, with what they stand for. -/
def shortEscapes : List (Char × Char) :=
  [('"', '"'), ('\\', '\\'), ('/', '/'), ('b', '\x08'), ('f', '\x0c'), ('n', '\n'), ('r', '\r'),
    ('t', '\t')]

/-- `CodeUnit unit digits`: the four digits are the code unit. -/
def CodeUnit (unit : Nat) (digits : List Char) : Prop :=
  ∃ a b c d, digits.map Text.hexValue? = [some a, some b, some c, some d] ∧
    unit = ((a * 16 + b) * 16 + c) * 16 + d

/-- `Spelling c cs`: one way to write the character `c` inside a literal. -/
inductive Spelling : Char → List Char → Prop where
  | plain {c : Char} (notQuote : c ≠ '"') (notBackslash : c ≠ '\\') (notControl : 0x20 ≤ c.toNat) :
      Spelling c [c]
  | short {e c : Char} (h : (e, c) ∈ shortEscapes) : Spelling c ['\\', e]
  | unit {c : Char} {digits : List Char} (h : CodeUnit c.toNat digits) :
      Spelling c ('\\' :: 'u' :: digits)
  | pair {c : Char} {leading trailing : Nat} {first second : List Char}
      (hfirst : CodeUnit leading first) (hsecond : CodeUnit trailing second)
      (hleading : isLeading leading) (htrailing : isTrailing trailing)
      (hc : c.toNat = paired leading trailing) :
      Spelling c ('\\' :: 'u' :: (first ++ '\\' :: 'u' :: second))

/-- `Key text cs`: one way to write a text inside a literal. -/
inductive Key : List Char → List Char → Prop where
  | nil : Key [] []
  | cons {c : Char} {p text cs : List Char} (first : Spelling c p) (later : Key text cs) :
      Key (c :: text) (p ++ cs)

/-- What may stand inside a literal as one character, or as half of one. -/
inductive Piece : List Char → Prop where
  | plain {c : Char} (notQuote : c ≠ '"') (notBackslash : c ≠ '\\') (notControl : 0x20 ≤ c.toNat) :
      Piece [c]
  | short {e c : Char} (h : (e, c) ∈ shortEscapes) : Piece ['\\', e]
  | unit {unit : Nat} {digits : List Char} (h : CodeUnit unit digits) :
      Piece ('\\' :: 'u' :: digits)

/-- What may stand between the quotes of a literal. -/
inductive Literal : List Char → Prop where
  | nil : Literal []
  | cons {p cs : List Char} (first : Piece p) (later : Literal cs) : Literal (p ++ cs)

theorem skipSpace_blanks {b : List Char} (h : Blanks b) (s : List Char) :
    skipSpace (b ++ s) = skipSpace s :=
  List.dropWhile_append_of_pos h

theorem skipSpace_cons {c : Char} (h : isSpace c = false) (s : List Char) :
    skipSpace (c :: s) = c :: s :=
  List.dropWhile_cons_of_neg (by rw [h]; exact Bool.false_ne_true)

/-- Both readings know the short escapes. -/
theorem shortEscape_read : ∀ e ∈ shortEscapes, ∀ r,
    literalChar ('\\' :: e.1 :: r) = .ok (some e.2, r) ∧
      passChar ('\\' :: e.1 :: r) = .ok (false, r) := by
  simp only [shortEscapes, List.forall_mem_cons]
  refine ⟨?_, ?_, ?_, ?_, ?_, ?_, ?_, ?_, fun _ h => by cases h⟩ <;> exact fun r => ⟨rfl, rfl⟩

theorem codeUnit_digits {unit : Nat} {digits : List Char} (h : CodeUnit unit digits)
    (r : List Char) : codeUnit (digits ++ r) = .ok (unit, r) := by
  rcases h with ⟨a, b, c, d, hdigits, rfl⟩
  rcases digits with _ | ⟨x, _ | ⟨y, _ | ⟨z, _ | ⟨w, _ | ⟨_, _⟩⟩⟩⟩⟩ <;> simp at hdigits
  rcases hdigits with ⟨hx, hy, hz, hw⟩
  simp [codeUnit, hx, hy, hz, hw]

/-- No character is half of a pair. -/
theorem not_surrogate (c : Char) : isLeading c.toNat = false ∧ isTrailing c.toNat = false := by
  have hvalid : c.toNat < 0xd800 ∨ 0xdfff < c.toNat ∧ c.toNat < 0x110000 := c.valid
  simp only [isLeading, isTrailing, Bool.and_eq_false_iff, decide_eq_false_iff_not]
  omega

/-- However a character is written, it is read in one turn. -/
theorem literalChar_spelling {c : Char} {p : List Char} (h : Spelling c p) (r : List Char) :
    literalChar (p ++ r) = .ok (some c, r) := by
  cases h with
  | plain notQuote notBackslash notControl =>
      rw [List.singleton_append, literalChar.eq_def]
      split <;> simp_all
  | short h => exact (shortEscape_read _ h r).1
  | @unit _ digits h =>
      rcases not_surrogate c with ⟨hleading, htrailing⟩
      have hescape : unicodeEscape (digits ++ r) = .ok (c, r) := by
        rw [unicodeEscape, codeUnit_digits h]
        simp only [bind, Except.bind, hleading, htrailing, Char.ofNat_toNat]
        rfl
      rw [List.cons_append, List.cons_append, literalChar, hescape]
      rfl
  | @pair _ leading trailing first second hfirst hsecond hleading htrailing hc =>
      -- The first unit is no character by itself, and the second one completes it.
      have hfirst' : isTrailing leading = false := by
        simp only [isLeading, isTrailing, Bool.and_eq_true, Bool.and_eq_false_iff,
          decide_eq_true_eq, decide_eq_false_iff_not] at hleading ⊢
        omega
      have hword : word ['\\', 'u'] ('\\' :: 'u' :: (second ++ r)) = .ok (second ++ r) := rfl
      have hescape : unicodeEscape (first ++ '\\' :: 'u' :: (second ++ r)) = .ok (c, r) := by
        rw [unicodeEscape, codeUnit_digits hfirst]
        simp only [bind, Except.bind, hleading, hfirst', hword, codeUnit_digits hsecond, htrailing,
          ← hc, Char.ofNat_toNat]
        rfl
      rw [List.cons_append, List.cons_append, List.append_assoc, List.cons_append,
        List.cons_append, literalChar, hescape]
      rfl

theorem Key.length_le {text cs : List Char} (h : Key text cs) : text.length ≤ cs.length := by
  induction h with
  | nil => exact Nat.le_refl _
  | @cons c p text cs first later ih =>
      have hp : 0 < p.length := by cases first <;> exact Nat.succ_pos _
      rw [List.length_cons, List.length_append]
      omega

theorem literalChars_key {text cs : List Char} (h : Key text cs) (r : List Char) :
    ∀ bound, text.length < bound → literalChars bound (cs ++ '"' :: r) = .ok (text, r) := by
  induction h with
  | nil =>
      intro bound hbound
      cases bound with
      | zero => exact absurd hbound (Nat.not_lt_zero _)
      | succ bound => rfl
  | @cons c p text cs first later ih =>
      intro bound hbound
      cases bound with
      | zero => exact absurd hbound (Nat.not_lt_zero _)
      | succ bound =>
          have hrest := ih bound (Nat.lt_of_succ_lt_succ hbound)
          rw [List.append_assoc, literalChars, literalChar_spelling first]
          simp only [bind, Except.bind, hrest]
          rfl

/-- However a key is written, it is read as its text. -/
theorem literal_key {text cs : List Char} (h : Key text cs) (r : List Char) :
    literal (cs ++ '"' :: r) = .ok (String.ofList text, r) := by
  have hlength := h.length_le
  rw [literal, literalChars_key h r _ (by rw [List.length_append]; omega)]
  rfl

/-- A text without quotes, backslashes and controls is one way to write itself. -/
theorem key_plain {text : List Char} (h : ∀ c ∈ text, c ≠ '"' ∧ c ≠ '\\' ∧ 0x20 ≤ c.toNat) :
    Key text text := by
  induction text with
  | nil => exact .nil
  | cons c text ih =>
      rcases h c List.mem_cons_self with ⟨hquote, hbackslash, hcontrol⟩
      refine .cons (.plain hquote hbackslash hcontrol) (ih fun d hd => ?_)
      exact h d (List.mem_cons_of_mem _ hd)

/-- A key may be passed over like any other literal: what is written as a pair are two pieces. -/
theorem Key.literal {text cs : List Char} (h : Key text cs) : Literal cs := by
  induction h with
  | nil => exact .nil
  | cons first later ih =>
      cases first with
      | plain notQuote notBackslash notControl =>
          exact .cons (.plain notQuote notBackslash notControl) ih
      | short h => exact .cons (.short h) ih
      | unit h => exact .cons (.unit h) ih
      | pair hfirst hsecond =>
          rw [List.cons_append, List.cons_append, List.append_assoc]
          exact .cons (.unit hfirst) (.cons (.unit hsecond) ih)

/-- Every piece is passed in one turn. -/
theorem passChar_piece {p : List Char} (h : Piece p) (r : List Char) :
    passChar (p ++ r) = .ok (false, r) := by
  cases h with
  | plain notQuote notBackslash notControl =>
      rw [List.singleton_append, passChar.eq_def]
      split <;> simp_all
  | short h => exact (shortEscape_read _ h r).2
  | unit h =>
      rw [List.cons_append, List.cons_append, passChar, codeUnit_digits h]
      rfl

/-- Every literal is passed. -/
theorem passLiteral_literal {cs : List Char} (h : Literal cs) (r : List Char) :
    passLiteral (cs ++ '"' :: r) = .ok r := by
  have hturns : ∀ bound, cs.length < bound → passChars bound (cs ++ '"' :: r) = .ok r := by
    induction h with
    | nil =>
        intro bound hbound
        cases bound with
        | zero => exact absurd hbound (Nat.not_lt_zero _)
        | succ bound => rfl
    | @cons p cs first later ih =>
        intro bound hbound
        have hp : 0 < p.length := by cases first <;> exact Nat.succ_pos _
        rw [List.length_append] at hbound
        cases bound with
        | zero => exact absurd hbound (Nat.not_lt_zero _)
        | succ bound =>
            rw [List.append_assoc, passChars, passChar_piece first]
            exact ih bound (by omega)
  exact hturns _ (by rw [List.length_append]; omega)

end TreeShell.Snapshot
