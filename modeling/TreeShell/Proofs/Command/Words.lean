import TreeShell.Command.Registry
import TreeShell.Proofs.Path.Printed

/-!
# What Is One Word

A line that the shell writes for itself is cut into words like any other, and there is no way to
quote in it. So a name that is put into a line comes out again as one word only if there is nothing
in it at which a line is cut. Then it is an operand, unless it begins like an option. A path that is
printed in full never does, as it begins with a slash.

Cutting loses nothing but the spaces: the letters of the words, one word after the other, are those
of the line without its spaces and no-break spaces. That is enough to see what the words of a name
can be, without following where the cuts are.

## Main definitions

* `IsWord`: A text that is one word of a line.

## Theorems

* `flatMap_words`: The words of a line hold what is not a space.
* `isWord_of_mem_words`: Every word of a line is one.
* `words_spaced`: To write the no-break spaces as spaces does not change the words.
* `words_eq_self_iff`: A text is its own single word exactly if it is one.
* `toList_of_words_eq_singleton`: What the only word of a text holds.
* `words_operand`: A word that is put behind a command comes out as its operand.
* `isOption_iff`, `isOption_append`, `isOption_text`: What begins like an option, and that no
  printed path does.
-/

namespace TreeShell

/-- A text that a line keeps in one piece: not empty, and without a space or a no-break space. -/
def IsWord (s : String) : Prop := s ≠ "" ∧ ' ' ∉ s.toList ∧ noBreakSpace ∉ s.toList

instance (s : String) : Decidable (IsWord s) := inferInstanceAs (Decidable (_ ∧ _ ∧ _))

/-- Two words without a space between them are one. -/
theorem IsWord.append {a b : String} (ha : IsWord a) (hb : IsWord b) : IsWord (a ++ b) := by
  rcases ha with ⟨hne, hspace, hbreak⟩
  refine ⟨fun h => hne (String.append_eq_empty_iff.1 h).1, ?_, ?_⟩
  · rw [String.toList_append, List.mem_append]
    exact fun hc => hc.elim hspace hb.2.1
  · rw [String.toList_append, List.mem_append]
    exact fun hc => hc.elim hbreak hb.2.2

/-- The letters of the words are those of the line, but for its spaces of both kinds. -/
theorem flatMap_words (line : String) :
    (words line).flatMap String.toList =
      line.toList.filter fun c => c ≠ ' ' ∧ c ≠ noBreakSpace := by
  have hwords : words line =
      (((spaced line).toList.splitOn ' ').filter (· ≠ [])).map String.ofList := by
    rw [words, Text.split, List.filter_map]
    congr 2
    funext cs
    simp
  have hletters : ∀ pieces : List (List Char),
      (pieces.map String.ofList).flatMap String.toList = pieces.flatten := by
    intro pieces
    simp [List.flatMap, Function.comp_def]
  have hkept : ∀ c : Char, ((if c = noBreakSpace then ' ' else c) ≠ ' ') =
      (c ≠ ' ' ∧ c ≠ noBreakSpace) := by
    intro c
    by_cases hc : c = noBreakSpace
    · simp [hc]
    · simp [hc]
  rw [hwords, hletters, List.flatten_filter_ne_nil, Text.flatten_splitOn, spaced, Text.swap,
    String.toList_ofList, List.filter_map]
  -- A no-break space has become a space and goes with the others; what is left was not changed.
  simp only [Function.comp_def, hkept]
  rw [← List.map_id (line.toList.filter _), List.map_map]
  refine List.map_congr_left fun c hc => ?_
  have hother := (List.mem_filter.1 hc).2
  simp only [decide_eq_true_eq] at hother
  exact if_neg hother.2

/-- Every word of a line is one word. -/
theorem isWord_of_mem_words {line w : String} (h : w ∈ words line) : IsWord w := by
  have hletters : ∀ c ∈ w.toList, c ≠ ' ' ∧ c ≠ noBreakSpace := by
    intro c hc
    have hline : c ∈ (words line).flatMap String.toList := List.mem_flatMap.2 ⟨w, h, hc⟩
    rw [flatMap_words] at hline
    simpa using (List.mem_filter.1 hline).2
  have hne : w ≠ "" := by
    have hfilter := (List.mem_filter.1 h).2
    simpa using hfilter
  exact ⟨hne, fun hc => (hletters _ hc).1 rfl, fun hc => (hletters _ hc).2 rfl⟩

/-- A text without a no-break space is left as it is. -/
theorem spaced_of_notMem {s : String} (h : noBreakSpace ∉ s.toList) : spaced s = s := by
  apply String.toList_injective
  rw [spaced, Text.swap, String.toList_ofList]
  refine (List.map_congr_left fun c hc => ?_).trans (List.map_id s.toList)
  have hother : c ≠ noBreakSpace := fun heq => h (heq ▸ hc)
  exact if_neg hother

/-- There is none in what has been rid of them. -/
theorem noBreakSpace_notMem_spaced (line : String) : noBreakSpace ∉ (spaced line).toList := by
  rw [spaced, Text.swap, String.toList_ofList, List.mem_map]
  rintro ⟨c, _, hc⟩
  split at hc
  · exact absurd hc (by decide)
  · rename_i hother
    exact hother hc

/-- To rid a line of them does not change its words. -/
theorem words_spaced (line : String) : words (spaced line) = words line := by
  rw [words, spaced_of_notMem (noBreakSpace_notMem_spaced line), words]

/-- A text is its own single word exactly if it is one word. -/
theorem words_eq_self_iff {s : String} : words s = [s] ↔ IsWord s := by
  constructor
  · intro h
    have hmem : s ∈ words s := h ▸ List.mem_singleton_self s
    exact isWord_of_mem_words hmem
  · rintro ⟨hne, hspace, hbreak⟩
    rw [words, spaced_of_notMem hbreak, Text.split_of_notMem hspace,
      List.filter_cons_of_pos (by simpa using hne), List.filter_nil]

/-- The only word of a text holds the letters of the text that are not spaces. -/
theorem toList_of_words_eq_singleton {s w : String} (h : words s = [w]) :
    w.toList = s.toList.filter fun c => c ≠ ' ' ∧ c ≠ noBreakSpace := by
  rw [← flatMap_words, h, List.flatMap_singleton]

/-- A word behind a command comes out as its operand. -/
theorem words_operand {command operand : String} (hcommand : IsWord command)
    (hoperand : IsWord operand) : words (command ++ " " ++ operand) = [command, operand] := by
  rw [words_cons (words_eq_self_iff.2 hcommand), words_eq_self_iff.2 hoperand]

/-- An option is what begins with a dash. -/
theorem isOption_iff {s : String} : isOption s = true ↔ s.toList.head? = some '-' := by
  rw [isOption, Text.startsWith]
  cases s.toList with
  | nil => decide
  | cons c cs =>
      rw [show ("-" : String).toList = ['-'] by decide, List.isPrefixOf_cons_cons, Bool.and_eq_true,
        beq_iff_eq, List.head?_cons, Option.some.injEq]
      exact ⟨fun h => h.1.symm, fun h => ⟨h.symm, rfl⟩⟩

/-- Only the beginning of a word decides whether it is one. -/
theorem isOption_append {a : String} (h : a ≠ "") (b : String) :
    isOption (a ++ b) = isOption a := by
  rw [Bool.eq_iff_iff, isOption_iff, isOption_iff, String.toList_append]
  cases hlist : a.toList with
  | nil => exact absurd (String.toList_injective hlist) h
  | cons c cs => rfl

/-- So a printed path is none. -/
theorem isOption_text (path : Path) : isOption path.text = false := by
  rw [Bool.eq_false_iff, Ne, isOption_iff, path.head?_text]
  decide

end TreeShell
