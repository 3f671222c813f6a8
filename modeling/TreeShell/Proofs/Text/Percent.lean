import Mathlib.Data.List.Basic
import TreeShell.Text.Percent

/-!
# Reading an Encoded Text

Whoever reads a query takes a percent sign with two digits behind it for a byte, and everything else
for itself. A percent sign without its digits is no error there and stands for itself too. So a text
that was never encoded can be read as well, and what comes out is the text unless it happens to hold
an escape. An escape is three bytes long and is read as one, so nothing makes up for it: the text is
read as itself exactly if there is no escape in it.

The encoder writes an escape for every percent sign, and an encoded text is read as what was
encoded.

## Main definitions

* `Text.escaped?`: The byte that three characters may stand for.
* `Text.unescape`: The bytes that a text is read as.
* `Text.Escapes`: There is an escape in a text.

## Theorems

* `Text.unescape_percentEncode`: An encoded text is read as what was encoded.
* `Text.amp_notMem_percentEncode`: It holds no ampersand.
* `Text.unescape_eq_self_iff`: A text is read as itself exactly if it holds no escape.
* `Text.escapes_append_cons_iff`, `Text.escapes_append_iff`: Where the escapes of a longer text are.
-/

namespace TreeShell.Text

/-- The byte that a percent sign and two hexadecimal digits stand for. -/
def escaped? (c hi lo : Char) : Option UInt8 :=
  if c = '%' then do
    let hi ← hexValue? hi
    let lo ← hexValue? lo
    return UInt8.ofNat (16 * hi + lo)
  else none

/-- The bytes that a text is read as: an escape is the byte it stands for, and any other character
    is itself. -/
def unescape : List Char → List UInt8
  | [] => []
  | [c] => String.utf8EncodeChar c
  | [c, d] => String.utf8EncodeChar c ++ String.utf8EncodeChar d
  | c :: hi :: lo :: rest =>
    match escaped? c hi lo with
    | some byte => byte :: unescape rest
    | none => String.utf8EncodeChar c ++ unescape (hi :: lo :: rest)

/-- There is an escape in a text. -/
def Escapes (cs : List Char) : Prop :=
  ∃ hi lo, ['%', hi, lo] <:+: cs ∧ (hexValue? hi).isSome ∧ (hexValue? lo).isSome

theorem escaped?_of_ne {c : Char} (h : c ≠ '%') (hi lo : Char) : escaped? c hi lo = none := by
  rw [escaped?, if_neg h]

theorem escaped?_isSome_iff {c hi lo : Char} : (escaped? c hi lo).isSome ↔
    c = '%' ∧ (hexValue? hi).isSome ∧ (hexValue? lo).isSome := by
  unfold escaped?
  split
  · cases hexValue? hi <;> cases hexValue? lo <;> simp [*]
  · simp [*]

/-- What does not begin with a percent sign begins with itself. -/
theorem unescape_cons_of_ne {c : Char} (h : c ≠ '%') (rest : List Char) :
    unescape (c :: rest) = String.utf8EncodeChar c ++ unescape rest := by
  match rest with
  | [] => simp [unescape]
  | [_] => rfl
  | _ :: _ :: _ => rw [unescape, escaped?_of_ne h]

/-- A text without a percent sign is read as itself. -/
theorem unescape_of_notMem {cs : List Char} (h : '%' ∉ cs) :
    unescape cs = cs.flatMap String.utf8EncodeChar := by
  induction cs with
  | nil => rfl
  | cons c rest ih =>
      rw [List.mem_cons, not_or] at h
      rw [unescape_cons_of_ne (Ne.symm h.1), ih h.2, List.flatMap_cons]

section Encoded

theorem hexValue?_hexDigit {n : Nat} (h : n < 16) : hexValue? (hexDigit n) = some n := by
  have hdigits : ∀ digit : Fin 16, hexValue? (hexDigit digit) = some digit.val := by decide
  exact hdigits ⟨n, h⟩

/-- A byte that stands for itself is an ASCII character, and neither `%` nor `&`. -/
theorem ne_of_isPlain {b : UInt8} (h : isPlain b = true) :
    b.toNat < 128 ∧ b.toNat ≠ 0x25 ∧ b.toNat ≠ 0x26 := by
  simp only [isPlain, Bool.or_eq_true, Bool.and_eq_true, decide_eq_true_eq, beq_iff_eq,
    UInt8.le_iff_toNat_le, ← UInt8.toNat_inj] at h
  simp at h
  omega

section Ascii

variable {b : UInt8} (h : b.toNat < 128)

include h

theorem toNat_ofNat_ascii : (Char.ofNat b.toNat).toNat = b.toNat := by
  have hvalid : b.toNat.isValidChar := .inl (by omega)
  rw [Char.ofNat, dif_pos hvalid]
  rfl

theorem utf8EncodeChar_ascii : String.utf8EncodeChar (Char.ofNat b.toNat) = [b] := by
  have hcode : (Char.ofNat b.toNat).val.toNat = b.toNat := toNat_ofNat_ascii h
  simp only [String.utf8EncodeChar, hcode]
  rw [if_pos (by omega), UInt8.ofNat_toNat]

end Ascii

/-- What stands for a byte is read as that byte. -/
theorem unescape_percentByte (b : UInt8) (rest : List Char) :
    unescape (percentByte b ++ rest) = b :: unescape rest := by
  unfold percentByte
  split
  · rename_i hplain
    obtain ⟨hascii, hpercent, _⟩ := ne_of_isPlain hplain
    have hne : Char.ofNat b.toNat ≠ '%' := by
      intro hc
      rw [← toNat_ofNat_ascii hascii, hc] at hpercent
      exact hpercent rfl
    rw [List.singleton_append, unescape_cons_of_ne hne, utf8EncodeChar_ascii hascii]
    rfl
  · have hbyte : escaped? '%' (hexDigit (b.toNat / 16)) (hexDigit (b.toNat % 16)) = some b := by
      have hb := b.toNat_lt
      rw [escaped?, if_pos rfl, hexValue?_hexDigit (by omega), hexValue?_hexDigit (by omega)]
      refine congrArg some (UInt8.toNat_inj.1 ?_)
      rw [UInt8.toNat_ofNat']
      omega
    rw [List.cons_append, List.cons_append, List.singleton_append, unescape, hbyte]

/-- An encoded text is read as what was encoded. -/
theorem unescape_percentEncode (s : String) : unescape (percentEncode s).toList = utf8 s := by
  have hbytes : ∀ bytes : List UInt8, unescape (bytes.flatMap percentByte) = bytes := by
    intro bytes
    induction bytes with
    | nil => rfl
    | cons b rest ih => rw [List.flatMap_cons, unescape_percentByte, ih]
  rw [percentEncode, String.toList_ofList, hbytes]

/-- No ampersand leaves the encoder. -/
theorem amp_notMem_percentEncode (s : String) : '&' ∉ (percentEncode s).toList := by
  rw [percentEncode, String.toList_ofList, List.mem_flatMap]
  rintro ⟨b, _, hmem⟩
  unfold percentByte at hmem
  split at hmem
  · rename_i hplain
    obtain ⟨hascii, _, hamp⟩ := ne_of_isPlain hplain
    rw [← toNat_ofNat_ascii hascii, ← List.mem_singleton.1 hmem] at hamp
    exact hamp rfl
  · have hdigits : ∀ digit : Fin 16, hexDigit digit ≠ '&' := by decide
    have hb := b.toNat_lt
    rcases List.mem_cons.1 hmem with hc | hmem
    · cases hc
    · rcases List.mem_pair.1 hmem with hc | hc
      · exact hdigits ⟨b.toNat / 16, by omega⟩ hc.symm
      · exact hdigits ⟨b.toNat % 16, by omega⟩ hc.symm

end Encoded

section Escapes

theorem escapes_cons_iff {c : Char} {rest : List Char} : Escapes (c :: rest) ↔
    (∃ hi lo more, rest = hi :: lo :: more ∧ (escaped? c hi lo).isSome) ∨ Escapes rest := by
  constructor
  · rintro ⟨hi, lo, hpart, hhi, hlo⟩
    rcases List.infix_cons_iff.1 hpart with ⟨more, hbegin⟩ | hpart
    · cases hbegin
      exact .inl ⟨hi, lo, more, rfl, escaped?_isSome_iff.2 ⟨rfl, hhi, hlo⟩⟩
    · exact .inr ⟨hi, lo, hpart, hhi, hlo⟩
  · rintro (⟨hi, lo, more, rfl, hsome⟩ | ⟨hi, lo, hpart, hhi, hlo⟩)
    · obtain ⟨rfl, hhi, hlo⟩ := escaped?_isSome_iff.1 hsome
      exact ⟨hi, lo, List.infix_cons_iff.2 (.inl ⟨more, rfl⟩), hhi, hlo⟩
    · exact ⟨hi, lo, List.infix_cons_iff.2 (.inr hpart), hhi, hlo⟩

theorem not_escapes_of_notMem {cs : List Char} (h : '%' ∉ cs) : ¬Escapes cs := by
  rintro ⟨hi, lo, hpart, _⟩
  exact h (hpart.subset List.mem_cons_self)

theorem not_escapes_of_length {cs : List Char} (h : cs.length < 3) : ¬Escapes cs := by
  rintro ⟨hi, lo, hpart, _⟩
  exact absurd hpart.length_le (Nat.not_le.2 h)

/-- A character that is no part of an escape keeps the escapes on its sides apart. -/
theorem escapes_append_cons_iff {c : Char} (hne : c ≠ '%') (hvalue : hexValue? c = none)
    (before after : List Char) :
    Escapes (before ++ c :: after) ↔ Escapes before ∨ Escapes after := by
  constructor
  · rintro ⟨hi, lo, hpart, hhi, hlo⟩
    rcases List.infix_append_iff.1 hpart with
      hbefore | hafter | ⟨first, second, hsplit, hfirst, hsecond⟩
    · exact .inl ⟨hi, lo, hbefore, hhi, hlo⟩
    · rcases List.infix_cons_iff.1 hafter with ⟨more, hbegin⟩ | hafter
      · exact absurd (List.cons.inj hbegin).1.symm hne
      · exact .inr ⟨hi, lo, hafter, hhi, hlo⟩
    · cases second with
      | nil =>
          rw [List.append_nil] at hsplit
          exact .inl ⟨hi, lo, hsplit ▸ hfirst.isInfix, hhi, hlo⟩
      | cons d second =>
          -- An escape across the character would have to hold it.
          obtain ⟨rfl, _⟩ := List.cons_prefix_cons.1 hsecond
          have hmem : d ∈ ['%', hi, lo] := by
            rw [hsplit]
            exact List.mem_append_right _ List.mem_cons_self
          rcases List.mem_cons.1 hmem with rfl | hmem
          · exact absurd rfl hne
          · rcases List.mem_pair.1 hmem with rfl | rfl
            · rw [hvalue] at hhi
              cases hhi
            · rw [hvalue] at hlo
              cases hlo
  · rintro (⟨hi, lo, hpart, hvalues⟩ | ⟨hi, lo, hpart, hvalues⟩)
    · exact ⟨hi, lo, hpart.trans (List.prefix_append _ _).isInfix, hvalues⟩
    · exact ⟨hi, lo, (hpart.trans (List.suffix_cons _ _).isInfix).trans
        (List.suffix_append _ _).isInfix, hvalues⟩

/-- Behind a text without a percent sign the escapes are those of what follows. -/
theorem escapes_append_iff {before : List Char} (h : '%' ∉ before) (after : List Char) :
    Escapes (before ++ after) ↔ Escapes after := by
  induction before with
  | nil => rfl
  | cons c before ih =>
      rw [List.mem_cons, not_or] at h
      rw [List.cons_append, escapes_cons_iff, ih h.2, or_iff_right]
      rintro ⟨hi, lo, _, _, hsome⟩
      exact h.1 (escaped?_isSome_iff.1 hsome).1.symm

/-- Three characters take more than one byte. -/
theorem length_lt_of_escape (c hi lo : Char) (rest : List Char) :
    (rest.flatMap String.utf8EncodeChar).length + 1 <
      ((c :: hi :: lo :: rest).flatMap String.utf8EncodeChar).length := by
  have hsize := c.utf8Size_pos
  have hsize' := hi.utf8Size_pos
  have hsize'' := lo.utf8Size_pos
  simp only [List.flatMap_cons, List.length_append, String.length_utf8EncodeChar]
  omega

/-- What a text is read as is never longer than the text. -/
theorem length_unescape_le (cs : List Char) :
    (unescape cs).length ≤ (cs.flatMap String.utf8EncodeChar).length := by
  induction cs using unescape.induct with
  | case1 => exact Nat.le_refl _
  | case2 c => simp [unescape]
  | case3 c d => simp [unescape]
  | case4 c hi lo rest byte hbyte ih =>
      rw [unescape, hbyte]
      exact Nat.le_trans (Nat.succ_le_succ ih) (Nat.le_of_lt (length_lt_of_escape c hi lo rest))
  | case5 c hi lo rest hnone ih =>
      rw [unescape, hnone, List.flatMap_cons, List.length_append, List.length_append]
      exact Nat.add_le_add_left ih _

/-- A text is read as itself exactly if there is no escape in it. -/
theorem unescape_eq_self_iff (cs : List Char) :
    unescape cs = cs.flatMap String.utf8EncodeChar ↔ ¬Escapes cs := by
  induction cs using unescape.induct with
  | case1 => exact iff_of_true rfl (not_escapes_of_length (by decide))
  | case2 c => exact iff_of_true (by simp [unescape]) (not_escapes_of_length (by simp))
  | case3 c d => exact iff_of_true (by simp [unescape]) (not_escapes_of_length (by simp))
  | case4 c hi lo rest byte hbyte _ =>
      have hescapes : Escapes (c :: hi :: lo :: rest) :=
        escapes_cons_iff.2 (.inl ⟨hi, lo, rest, rfl, by rw [hbyte]; rfl⟩)
      refine ⟨fun hsame => ?_, fun hnone => absurd hescapes hnone⟩
      -- One byte is read where there were three.
      have hlength := length_lt_of_escape c hi lo rest
      rw [← hsame, unescape, hbyte, List.length_cons] at hlength
      have hle := length_unescape_le rest
      omega
  | case5 c hi lo rest hnone ih =>
      have hrest : Escapes (c :: hi :: lo :: rest) ↔ Escapes (hi :: lo :: rest) := by
        rw [escapes_cons_iff, or_iff_right]
        rintro ⟨_, _, _, hmore, hsome⟩
        cases hmore
        rw [hnone] at hsome
        cases hsome
      rw [unescape, hnone, List.flatMap_cons, List.append_cancel_left_eq, ih, hrest]

end Escapes

end TreeShell.Text
