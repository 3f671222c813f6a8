import TreeShell.Proofs.Text.Percent

/-!
# Query Components

A query component is made in two stages. A serializer for forms writes a text byte by byte: what is
plain as it stands, a space as a plus sign, and anything else as an escape. Then every plus sign is
replaced by the escape of a space. That is right for one reason only. A plus sign that was in the
text is not plain, so it has become an escape in the first stage, and those that are left to replace
are the spaces.

The serializer is not written here. It is taken to be any function that does what is said of it
byte by byte (`FormSerializer`), and both stages together are then the encoder
(`FormSerializer.component_eq`).

What comes out is a row of plain characters and escapes (`Encoded`), which is why nothing in it can
be taken for the structure of a query. The strict reader, which takes an escape without its digits
for an error, reads every such row, and reads the bytes of the text that was encoded. No two texts
have the same bytes, so no two are encoded alike.

## Main definitions

* `FormSerializer`: What the first stage does.
* `component`: A text after both stages.
* `Encoded`: A row of plain characters and escapes.
* `formSerialize`: A serializer.

## Theorems

* `utf8_injective`: No two texts have the same bytes.
* `FormSerializer.component_eq`: Both stages come to the encoder.
* `encoded_percentEncode`, `Encoded.mem`: What an encoded text consists of.
* `percentDecode?_percentEncode`: An encoded text is read strictly as what was encoded.
* `component_reversible`: All of this together.
-/

namespace TreeShell.Text

/-- A serializer for forms: byte by byte, with a space written as a plus sign. -/
structure FormSerializer (serialize : List UInt8 → String) : Prop where
  nil : serialize [] = ""
  cons : ∀ b rest, serialize (b :: rest) = serialize [b] ++ serialize rest
  plain : ∀ b, isPlain b = true → serialize [b] = String.singleton (Char.ofNat b.toNat)
  space : serialize [0x20] = "+"
  other : ∀ b, isPlain b = false → b ≠ 0x20 →
    serialize [b] = String.ofList ['%', hexDigit (b.toNat / 16), hexDigit (b.toNat % 16)]

/-- A text with every plus sign replaced by the escape of a space. -/
def plusReplaced (s : String) : String :=
  String.ofList (s.toList.flatMap fun c => if c = '+' then ['%', '2', '0'] else [c])

/-- A text after both stages. -/
def component (serialize : List UInt8 → String) (s : String) : String :=
  plusReplaced (serialize (utf8 s))

/-- The upper-case hexadecimal digits. -/
def hexDigits : List Char := "0123456789ABCDEF".toList

/-- A row of ASCII letters, digits, characters of `*-._`, and escapes. -/
inductive Encoded : List Char → Prop where
  | nil : Encoded []
  | plain {c : Char} {rest : List Char} (letter : c.isAlphanum = true ∨ c ∈ ['*', '-', '.', '_'])
      (tail : Encoded rest) : Encoded (c :: rest)
  | escape {hi lo : Char} {rest : List Char} (high : hi ∈ hexDigits) (low : lo ∈ hexDigits)
      (tail : Encoded rest) : Encoded ('%' :: hi :: lo :: rest)

/-- A serializer for forms. -/
def formSerialize (bytes : List UInt8) : String :=
  String.ofList (bytes.flatMap fun b => if b = 0x20 then ['+'] else percentByte b)

section Bytes

theorem utf8_eq_toByteArray (s : String) : utf8 s = s.toByteArray.data.toList := by
  rw [← String.utf8Encode_toList, List.utf8Encode, List.data_toByteArray, utf8]

/-- No two texts have the same bytes. -/
theorem utf8_injective {s t : String} (h : utf8 s = utf8 t) : s = t := by
  rw [utf8_eq_toByteArray, utf8_eq_toByteArray] at h
  exact String.toByteArray_inj.1 (ByteArray.ext (Array.toList_inj.1 h))

theorem hexDigit_mem {n : Nat} (h : n < 16) : hexDigit n ∈ hexDigits := by
  have hdigits : ∀ digit : Fin 16, hexDigit digit ∈ hexDigits := by decide
  exact hdigits ⟨n, h⟩

/-- A byte that stands for itself is a letter, a digit or one of four other characters. -/
theorem letter_of_isPlain {b : UInt8} (h : isPlain b = true) :
    (Char.ofNat b.toNat).isAlphanum = true ∨ Char.ofNat b.toNat ∈ ['*', '-', '.', '_'] := by
  have hbytes : ∀ n : Fin 256, isPlain (UInt8.ofNat n) = true →
      (Char.ofNat n).isAlphanum = true ∨ Char.ofNat n ∈ ['*', '-', '.', '_'] := by decide +kernel
  refine hbytes ⟨b.toNat, b.toNat_lt⟩ ?_
  rw [UInt8.ofNat_toNat]
  exact h

end Bytes

section Encoded

theorem encoded_percentByte (b : UInt8) {rest : List Char} (h : Encoded rest) :
    Encoded (percentByte b ++ rest) := by
  have hb := b.toNat_lt
  unfold percentByte
  split
  · rename_i hplain
    exact .plain (letter_of_isPlain hplain) h
  · exact .escape (hexDigit_mem (by omega)) (hexDigit_mem (by omega)) h

/-- An encoded text is a row of plain characters and escapes. -/
theorem encoded_percentEncode (s : String) : Encoded (percentEncode s).toList := by
  rw [percentEncode, String.toList_ofList]
  induction utf8 s with
  | nil => exact .nil
  | cons b rest ih =>
      rw [List.flatMap_cons]
      exact encoded_percentByte b ih

/-- There is nothing else in such a row. -/
theorem Encoded.mem {cs : List Char} (h : Encoded cs) {c : Char} (hc : c ∈ cs) :
    c.isAlphanum = true ∨ c ∈ ['*', '-', '.', '_', '%'] := by
  have hdigits : ∀ d ∈ hexDigits, d.isAlphanum = true := List.all_eq_true.1 (by decide)
  induction h with
  | nil => exact absurd hc List.not_mem_nil
  | plain letter _ ih =>
      rcases List.mem_cons.1 hc with rfl | hc
      · exact letter.imp_right (List.mem_append_left ['%'])
      · exact ih hc
  | escape high low _ ih =>
      rcases List.mem_cons.1 hc with rfl | hc
      · exact .inr (by decide)
      rcases List.mem_cons.1 hc with rfl | hc
      · exact .inl (hdigits _ high)
      rcases List.mem_cons.1 hc with rfl | hc
      · exact .inl (hdigits _ low)
      · exact ih hc

theorem percentDecode?_cons_of_ne {c : Char} (h : c ≠ '%') (rest : List Char) :
    percentDecode? (c :: rest) = (percentDecode? rest).map (String.utf8EncodeChar c ++ ·) := by
  rw [percentDecode?, if_neg h]
  rintro hi lo more rfl
  exact absurd rfl h

/-- What stands for a byte is read as that byte. -/
theorem percentDecode?_percentByte (b : UInt8) (rest : List Char) :
    percentDecode? (percentByte b ++ rest) = (percentDecode? rest).map (b :: ·) := by
  unfold percentByte
  split
  · rename_i hplain
    have hne : Char.ofNat b.toNat ≠ '%' := by
      intro hc
      have hletter := letter_of_isPlain hplain
      rw [hc] at hletter
      exact absurd hletter (by decide)
    rw [List.singleton_append, percentDecode?_cons_of_ne hne,
      utf8EncodeChar_ascii (ne_of_isPlain hplain).1]
    rfl
  · have hb := b.toNat_lt
    have hbyte : UInt8.ofNat (16 * (b.toNat / 16) + b.toNat % 16) = b := by
      rw [Nat.div_add_mod, UInt8.ofNat_toNat]
    rw [List.cons_append, List.cons_append, List.singleton_append, percentDecode?,
      hexValue?_hexDigit (by omega), hexValue?_hexDigit (by omega)]
    simp only [Option.bind_eq_bind, Option.bind_some, hbyte]
    cases percentDecode? rest with
    | none => rfl
    | some bytes => rfl

/-- An encoded text is read strictly as the bytes of what was encoded. -/
theorem percentDecode?_percentEncode (s : String) :
    percentDecode? (percentEncode s).toList = some (utf8 s) := by
  rw [percentEncode, String.toList_ofList]
  induction utf8 s with
  | nil => rfl
  | cons b rest ih => rw [List.flatMap_cons, percentDecode?_percentByte, ih, Option.map_some]

end Encoded

section Stages

theorem plusReplaced_append (a b : String) :
    plusReplaced (a ++ b) = plusReplaced a ++ plusReplaced b := by
  apply String.toList_injective
  simp only [plusReplaced, String.toList_append, String.toList_ofList, List.flatMap_append]

/-- A text without a plus sign stays as it is. -/
theorem plusReplaced_of_notMem {s : String} (h : '+' ∉ s.toList) : plusReplaced s = s := by
  apply String.toList_injective
  rw [plusReplaced, String.toList_ofList]
  generalize s.toList = cs at h
  induction cs with
  | nil => rfl
  | cons c cs ih =>
      rw [List.mem_cons, not_or] at h
      rw [List.flatMap_cons, if_neg (Ne.symm h.1), ih h.2, List.singleton_append]

namespace FormSerializer

variable {serialize : List UInt8 → String} (h : FormSerializer serialize)

include h

/-- Both stages together write a byte as the encoder does. Only a space is written as a plus sign,
    since neither a plain byte nor an escape has one. -/
theorem plusReplaced_byte (b : UInt8) :
    plusReplaced (serialize [b]) = String.ofList (percentByte b) := by
  have hplus : '+' ∉ hexDigits := by decide
  have hb := b.toNat_lt
  by_cases hspace : b = 0x20
  · rw [hspace, h.space]
    decide
  cases hplain : isPlain b with
  | true =>
      rw [h.plain b hplain, percentByte, if_pos hplain, plusReplaced_of_notMem]
      · rfl
      · rw [String.toList_singleton, List.mem_singleton]
        intro hc
        have hletter := letter_of_isPlain hplain
        rw [← hc] at hletter
        exact absurd hletter (by decide)
  | false =>
      rw [h.other b hplain hspace, percentByte, hplain, if_neg Bool.false_ne_true,
        plusReplaced_of_notMem]
      rw [String.toList_ofList, List.mem_cons, List.mem_pair]
      rintro (hc | hc | hc)
      · exact absurd hc (by decide)
      · exact hplus (hc ▸ hexDigit_mem (by omega))
      · exact hplus (hc ▸ hexDigit_mem (by omega))

/-- Both stages together are the encoder. -/
theorem component_eq (s : String) : component serialize s = percentEncode s := by
  rw [component, percentEncode]
  induction utf8 s with
  | nil =>
      rw [h.nil]
      rfl
  | cons b rest ih =>
      rw [h.cons, plusReplaced_append, ih, h.plusReplaced_byte, List.flatMap_cons,
        String.ofList_append]

end FormSerializer

theorem formSerializer_formSerialize : FormSerializer formSerialize := by
  have hsingle : ∀ b, formSerialize [b] =
      String.ofList (if b = 0x20 then ['+'] else percentByte b) := fun b => by
    rw [formSerialize, List.flatMap_singleton]
  refine ⟨rfl, fun b rest => ?_, fun b hplain => ?_, by decide, fun b hplain hspace => ?_⟩
  · rw [hsingle, formSerialize, formSerialize, List.flatMap_cons, String.ofList_append]
  · have hspace : b ≠ 0x20 := by
      rintro rfl
      exact absurd hplain (by decide)
    rw [hsingle, if_neg hspace, percentByte, if_pos hplain]
    rfl
  · rw [hsingle, if_neg hspace, percentByte, hplain, if_neg Bool.false_ne_true]

end Stages

/-- Whatever text is made a query component, and by whatever serializer for forms: what comes out is
    a row of ASCII letters, digits, characters of `*-._`, and percent signs with two hexadecimal
    digits, so nothing in it separates anything in a query or stands for a space. It is read as the
    bytes of the text, and no other text comes out the same. -/
theorem component_reversible {serialize : List UInt8 → String} (h : FormSerializer serialize) :
    (∀ s, component serialize s = percentEncode s ∧
      Encoded (component serialize s).toList ∧
      percentDecode? (component serialize s).toList = some (utf8 s) ∧
      ∀ c ∈ ['&', '=', '#', '+', ' '], c ∉ (component serialize s).toList) ∧
    ∀ s t, component serialize s = component serialize t → s = t := by
  constructor
  · intro s
    have hencoded := encoded_percentEncode s
    rw [h.component_eq]
    refine ⟨rfl, hencoded, percentDecode?_percentEncode s, fun c hc hmem => ?_⟩
    have hletters : ['&', '=', '#', '+', ' '].all (fun d =>
        decide (¬(d.isAlphanum = true ∨ d ∈ ['*', '-', '.', '_', '%']))) = true := by decide
    exact of_decide_eq_true (List.all_eq_true.1 hletters c hc) (hencoded.mem hmem)
  · intro s t hsame
    rw [h.component_eq, h.component_eq] at hsame
    have hbytes := percentDecode?_percentEncode s
    rw [hsame, percentDecode?_percentEncode t] at hbytes
    exact utf8_injective (Option.some.inj hbytes).symm

/-- A plus sign and a space, which the first stage must not confuse, and a letter of two bytes. -/
theorem component_reversible_plus :
    component formSerialize "a+b &é" = "a%2Bb%20%26%C3%A9" ∧
      percentDecode? (component formSerialize "a+b &é").toList =
        some [0x61, 0x2b, 0x62, 0x20, 0x26, 0xc3, 0xa9] ∧
      component formSerialize "a+b" ≠ component formSerialize "a b" := by
  have hreversible := component_reversible formSerializer_formSerialize
  rcases hreversible.1 "a+b &é" with ⟨hcomponent, _, hread, _⟩
  refine ⟨?_, ?_, fun hsame => ?_⟩
  · rw [hcomponent]
    decide
  · rw [hread]
    decide
  · exact absurd (hreversible.2 _ _ hsame) (by decide)

end TreeShell.Text
