/-!
# Pieces of Text

Paths, storage names, command lines and the half-typed token of the line editor are all read the
same way: cut at one character, or at its last occurrence. The cuts are made on the list of
characters, because that is where the library's laws of `List.splitOn` live; `String` is only the
form in which the pieces are kept.

## Main definitions

* `Text.split`: The pieces between the occurrences of a separator.
* `Text.cutLast?`: What stands before and after the last occurrence.
* `Text.startsWith`: Whether one text begins with another.
* `Text.swap`: One character written in place of another.

## Theorems

* `Text.join_split`, `Text.split_join`: Joined pieces are the text again, and pieces free of the
  separator come back from their joined form.
* `Text.split_of_notMem`: A text without the separator is one piece.
* `Text.split_append`: The pieces on both sides of a separator are cut separately.
* `Text.not_mem_of_mem_split`: No piece holds the separator.
* `Text.flatten_splitOn`, `Text.mem_of_mem_split`: The pieces hold everything else.
* `Text.cutLast?_eq_some_iff`: The cut is at the separator after which there is no other.
-/

namespace TreeShell.Text

/-- The pieces of `s` between the occurrences of `sep`: always one more than there are occurrences,
    so a text without the separator is its own single piece. -/
def split (sep : Char) (s : String) : List String :=
  (s.toList.splitOn sep).map String.ofList

theorem split_ne_nil (sep : Char) (s : String) : split sep s ≠ [] := by
  simp [split]

/-- Joining the pieces again gives the text back, whatever it holds. -/
theorem join_split (sep : Char) (s : String) :
    (String.singleton sep).intercalate (split sep s) = s := by
  apply String.toList_injective
  simp [split, String.toList_intercalate, Function.comp_def]

/-- Pieces that do not hold the separator come back one by one from their joined form. -/
theorem split_join (sep : Char) (ps : List String) (hne : ps ≠ [])
    (hsep : ∀ p ∈ ps, sep ∉ p.toList) :
    split sep ((String.singleton sep).intercalate ps) = ps := by
  have hsep' : ∀ l ∈ ps.map String.toList, sep ∉ l := by simpa using hsep
  rw [split, String.toList_intercalate, String.toList_singleton,
    List.splitOn_intercalate _ hsep' (by simpa using hne)]
  simp

/-- A text without the separator is its own single piece. -/
theorem split_of_notMem {sep : Char} {s : String} (h : sep ∉ s.toList) : split sep s = [s] :=
  split_join sep [s] (List.cons_ne_nil _ _) (List.forall_mem_singleton.2 h)

/-- The pieces on both sides of a separator are cut separately. -/
theorem split_append (sep : Char) (a b : String) :
    split sep (a ++ String.singleton sep ++ b) = split sep a ++ split sep b := by
  rw [split, String.toList_append, String.toList_append, String.toList_singleton,
    List.append_assoc, List.singleton_append, List.splitOn_append_cons_self, List.map_append]
  rfl

/-- No piece holds the separator: each occurrence ends one piece and begins the next. -/
theorem not_mem_of_mem_splitOn {sep : Char} {s p : List Char} (hp : p ∈ s.splitOn sep) :
    sep ∉ p := by
  induction s generalizing p with
  | nil => simp_all
  | cons c s ih =>
    rw [List.splitOn_cons_eq_if_modifyHead] at hp
    split at hp
    · rcases List.mem_cons.1 hp with rfl | hp
      · simp
      · exact ih hp
    · rename_i hc
      cases hs : s.splitOn sep with
      | nil => exact absurd hs (List.splitOn_ne_nil sep s)
      | cons first others =>
        rw [hs, List.modifyHead_cons] at hp
        rcases List.mem_cons.1 hp with rfl | hp
        · -- The piece that the first character joins held no separator before.
          intro hmem
          rcases List.mem_cons.1 hmem with rfl | hmem
          · exact hc (beq_self_eq_true _)
          · exact ih (hs ▸ List.mem_cons_self) hmem
        · exact ih (hs ▸ List.mem_cons_of_mem _ hp)

theorem not_mem_of_mem_split {sep : Char} {s p : String} (hp : p ∈ split sep s) :
    sep ∉ p.toList := by
  rcases List.mem_map.1 hp with ⟨cs, hcs, rfl⟩
  rw [String.toList_ofList]
  exact not_mem_of_mem_splitOn hcs

/-- The pieces of a text, put together without the separator, hold everything else. -/
theorem flatten_splitOn (sep : Char) (s : List Char) :
    (s.splitOn sep).flatten = s.filter (· ≠ sep) := by
  induction s with
  | nil => rfl
  | cons c s ih =>
      rw [List.splitOn_cons_eq_if_modifyHead]
      by_cases hc : c = sep
      · rw [if_pos (beq_iff_eq.2 hc), List.flatten_cons, List.nil_append, ih,
          List.filter_cons_of_neg (by simpa using hc)]
      · rw [if_neg (fun h => hc (beq_iff_eq.1 h)), List.filter_cons_of_pos (by simpa using hc),
          ← ih]
        -- The character joins the first piece, and there always is one.
        cases hs : s.splitOn sep with
        | nil => exact absurd hs (List.splitOn_ne_nil sep s)
        | cons first others => rfl

/-- A piece holds no letter that the text does not hold. -/
theorem mem_of_mem_split {sep : Char} {s p : String} (hp : p ∈ split sep s) {c : Char}
    (hc : c ∈ p.toList) : c ∈ s.toList := by
  rcases List.mem_map.1 hp with ⟨cs, hcs, rfl⟩
  rw [String.toList_ofList] at hc
  have hflat : c ∈ (s.toList.splitOn sep).flatten := List.mem_flatten.2 ⟨cs, hcs, hc⟩
  rw [flatten_splitOn] at hflat
  exact (List.mem_filter.1 hflat).1

/-- Cut `s` at the last `sep` in it: what stands before, and what stands after. -/
def cutLast? (sep : Char) : List Char → Option (List Char × List Char)
  | [] => none
  | c :: rest =>
    match cutLast? sep rest with
    | some (before, after) => some (c :: before, after)
    | none => if c = sep then some ([], rest) else none

theorem cutLast?_eq_none_iff {sep : Char} {s : List Char} :
    cutLast? sep s = none ↔ sep ∉ s := by
  induction s with
  | nil => simp [cutLast?]
  | cons c rest ih =>
    rw [cutLast?]
    cases h : cutLast? sep rest with
    | none =>
      by_cases hc : c = sep
      · simp [hc]
      · simp [hc, ih.1 h, Ne.symm hc]
    | some p =>
      have hmem : sep ∈ rest := Decidable.of_not_not fun hn => by simp [ih.2 hn] at h
      simp [hmem]

theorem cutLast?_append_cons {sep : Char} {before after : List Char} (h : sep ∉ after) :
    cutLast? sep (before ++ sep :: after) = some (before, after) := by
  induction before with
  | nil => simp [cutLast?, cutLast?_eq_none_iff.2 h]
  | cons c before ih => simp [cutLast?, ih]

theorem eq_append_of_cutLast? {sep : Char} {s before after : List Char}
    (h : cutLast? sep s = some (before, after)) : s = before ++ sep :: after ∧ sep ∉ after := by
  induction s generalizing before with
  | nil => simp [cutLast?] at h
  | cons c rest ih =>
    rw [cutLast?] at h
    cases hr : cutLast? sep rest with
    | none =>
      rw [hr] at h
      by_cases hc : c = sep
      · simp only [hc, if_true, Option.some.injEq, Prod.mk.injEq] at h
        obtain ⟨rfl, rfl⟩ := h
        exact ⟨by simp [hc], cutLast?_eq_none_iff.1 hr⟩
      · simp [hc] at h
    | some p =>
      rw [hr] at h
      simp only [Option.some.injEq, Prod.mk.injEq] at h
      obtain ⟨rfl, rfl⟩ := h
      obtain ⟨rfl, hafter⟩ := ih hr
      exact ⟨rfl, hafter⟩

/-- The cut is at the separator after which there is no other. -/
theorem cutLast?_eq_some_iff {sep : Char} {s before after : List Char} :
    cutLast? sep s = some (before, after) ↔ s = before ++ sep :: after ∧ sep ∉ after :=
  ⟨eq_append_of_cutLast?, fun ⟨hs, hafter⟩ => hs ▸ cutLast?_append_cons hafter⟩

/-- Whether `s` begins with `start`. -/
def startsWith (start s : String) : Bool :=
  start.toList.isPrefixOf s.toList

theorem startsWith_iff {start s : String} :
    startsWith start s = true ↔ ∃ rest : String, s = start ++ rest := by
  constructor
  · intro h
    obtain ⟨t, ht⟩ := List.isPrefixOf_iff_prefix.1 h
    exact ⟨String.ofList t, String.toList_injective (by simp [ht])⟩
  · rintro ⟨rest, rfl⟩
    simp [startsWith]

/-- `s` with every `old` written as `new`. -/
def swap (old new : Char) (s : String) : String :=
  String.ofList (s.toList.map fun c => if c = old then new else c)

end TreeShell.Text
