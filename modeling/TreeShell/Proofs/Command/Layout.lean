import TreeShell.Proofs.Command.Words

/-!
# The Layout of a Line

How a line is cut says nothing yet about which lines have given words. Whoever writes a line, the
boot that replays a hint or a completion that replaces the last word, goes the other way: it has the
words and chooses what to put between them. A line is laid out as its words in order, with a gap
between any two of them and perhaps one at either end, where a gap is a run of spaces and no-break
spaces in any mixture. That is the whole grammar. Every line is laid out so, and a line that is laid
out so has these words and no others (`words_eq_iff`).

Both directions go letter by letter from the front. A gap in front changes nothing, and a gap
further on separates what is on its two sides, so a layout is read back one word at a time. To find
the layout of a line, its first letter is put in front of the layout of the rest: it makes the gap
in front longer, or the first word, or it is a word of its own.

## Main definitions

* `IsCut`, `IsGap`: A character at which a line is cut, and a run of them.
* `Joined`: The texts that come of joining words by gaps.
* `LaidOut`: A line that holds given words, with gaps between them and perhaps at its ends.

## Theorems

* `words_append_cut`, `words_gap_append`, `words_append_gap`: What a gap separates.
* `words_joined`: Words that are joined by gaps come back.
* `exists_laidOut`: Every line is laid out in some way.
* `words_eq_iff`: The words of a line are those that it is laid out as.
* `words_grammar`: Words hold all but the spaces, a space separates, and joined words come back.
-/

namespace TreeShell

/-- A character at which a line is cut. -/
def IsCut (c : Char) : Prop := c = ' ' ∨ c = noBreakSpace

instance (c : Char) : Decidable (IsCut c) := inferInstanceAs (Decidable (_ ∨ _))

/-- A run of such characters, which may be empty. -/
def IsGap (s : String) : Prop := ∀ c ∈ s.toList, IsCut c

instance (s : String) : Decidable (IsGap s) := List.decidableBAll IsCut s.toList

/-- The texts that come of joining words by gaps, none of which is empty. -/
inductive Joined : List String → String → Prop where
  | none : Joined [] ""
  | last (word : String) : Joined [word] word
  | step {word gap next text : String} {rest : List String} (hgap : IsGap gap) (hne : gap ≠ "")
      (hrest : Joined (next :: rest) text) : Joined (word :: next :: rest) (word ++ gap ++ text)

/-- A line that holds words in their order, with gaps between them and perhaps at its two ends. -/
def LaidOut (ws : List String) (line : String) : Prop :=
  (∀ w ∈ ws, IsWord w) ∧ ∃ before text after, IsGap before ∧ Joined ws text ∧ IsGap after ∧
    line = before ++ text ++ after

theorem isGap_empty : IsGap "" := fun _ hc => absurd hc List.not_mem_nil

theorem IsGap.append {a b : String} (ha : IsGap a) (hb : IsGap b) : IsGap (a ++ b) := by
  intro c hc
  rw [String.toList_append, List.mem_append] at hc
  exact hc.elim (ha c) (hb c)

theorem isGap_singleton {c : Char} (h : IsCut c) : IsGap (String.singleton c) := by
  intro d hd
  rw [String.toList_singleton, List.mem_singleton] at hd
  exact hd ▸ h

/-- A letter at which a line is not cut is one word. -/
theorem isWord_singleton {c : Char} (h : ¬IsCut c) : IsWord (String.singleton c) := by
  rw [IsCut, not_or] at h
  refine ⟨String.singleton_ne_empty, ?_, ?_⟩
  · rw [String.toList_singleton, List.mem_singleton]
    exact Ne.symm h.1
  · rw [String.toList_singleton, List.mem_singleton]
    exact Ne.symm h.2

/-- The words on both sides of a cut are counted separately. -/
theorem words_append_cut {c : Char} (h : IsCut c) (a b : String) :
    words (a ++ String.singleton c ++ b) = words a ++ words b := by
  have hspaced : spaced (a ++ String.singleton c ++ b) = spaced (a ++ " " ++ b) := by
    apply String.toList_injective
    rcases h with rfl | rfl <;> simp [spaced, Text.swap, String.toList_append]
  rw [← words_spaced, hspaced, words_spaced, words_append]

theorem words_empty : words "" = [] := by decide

/-- A gap in front of a line adds no word. -/
theorem words_gap_append {gap : String} (h : IsGap gap) (b : String) :
    words (gap ++ b) = words b := by
  obtain ⟨cs, rfl⟩ : ∃ cs, gap = String.ofList cs := ⟨gap.toList, String.ofList_toList.symm⟩
  rw [IsGap, String.toList_ofList] at h
  induction cs with
  | nil => rw [String.ofList_nil, String.empty_append]
  | cons c cs ih =>
      rw [List.forall_mem_cons] at h
      have hcut := words_append_cut h.1 "" (String.ofList cs ++ b)
      rw [String.empty_append, ← String.append_assoc, ← String.ofList_cons] at hcut
      rw [hcut, ih h.2, words_empty, List.nil_append]

/-- The words on both sides of a gap that is not empty are counted separately. -/
theorem words_append_gap {gap : String} (h : IsGap gap) (hne : gap ≠ "") (a b : String) :
    words (a ++ gap ++ b) = words a ++ words b := by
  have hletters : gap.toList ≠ [] := fun hnil => hne (String.toList_eq_nil_iff.1 hnil)
  obtain ⟨c, cs, hcs⟩ := List.exists_cons_of_ne_nil hletters
  have hgap : gap = String.singleton c ++ String.ofList cs := by
    apply String.toList_injective
    simp [hcs]
  have hcut : IsCut c := h c (hcs ▸ List.mem_cons_self)
  have hrest : IsGap (String.ofList cs) := by
    intro d hd
    rw [String.toList_ofList] at hd
    exact h d (hcs ▸ List.mem_cons_of_mem _ hd)
  rw [hgap, ← String.append_assoc, String.append_assoc, words_append_cut hcut,
    words_gap_append hrest]

/-- A gap at the end of a line adds no word. -/
theorem words_append_gap_end {gap : String} (h : IsGap gap) (a : String) :
    words (a ++ gap) = words a := by
  by_cases hne : gap = ""
  · rw [hne, String.append_empty]
  · have hsplit := words_append_gap h hne a ""
    rw [String.append_empty] at hsplit
    rw [hsplit, words_empty, List.append_nil]

/-- Words that are joined by gaps come back, by induction on how they are joined. -/
theorem words_joined {ws : List String} {text : String} (h : Joined ws text)
    (hwords : ∀ w ∈ ws, IsWord w) : words text = ws := by
  induction h with
  | none => exact words_empty
  | last word => exact words_eq_self_iff.2 (hwords word List.mem_cons_self)
  | step hgap hne _ ih =>
      rw [List.forall_mem_cons] at hwords
      rw [words_append_gap hgap hne, ih hwords.2, words_eq_self_iff.2 hwords.1,
        List.singleton_append]

/-- Letters in front of a joined text stand in front of its first word. -/
theorem Joined.prepend {w text : String} {rest : List String} (h : Joined (w :: rest) text)
    (start : String) : Joined ((start ++ w) :: rest) (start ++ text) := by
  cases h with
  | last => exact .last _
  | step hgap hne hrest =>
      rw [← String.append_assoc, ← String.append_assoc]
      exact .step hgap hne hrest

theorem Joined.eq_empty {text : String} (h : Joined [] text) : text = "" := by
  cases h
  rfl

/-- A line that is laid out as words has these words. -/
theorem LaidOut.words_eq {ws : List String} {line : String} (h : LaidOut ws line) :
    words line = ws := by
  obtain ⟨hwords, before, text, after, hbefore, hjoined, hafter, rfl⟩ := h
  rw [words_append_gap_end hafter, words_gap_append hbefore, words_joined hjoined hwords]

/-- A further cut in front of a line changes nothing. -/
theorem LaidOut.cut {ws : List String} {line : String} (h : LaidOut ws line) {c : Char}
    (hc : IsCut c) : LaidOut ws (String.singleton c ++ line) := by
  obtain ⟨hwords, before, text, after, hbefore, hjoined, hafter, rfl⟩ := h
  refine ⟨hwords, String.singleton c ++ before, text, after, ?_, hjoined, hafter, ?_⟩
  · exact (isGap_singleton hc).append hbefore
  · rw [String.append_assoc, String.append_assoc, String.append_assoc]

/-- Any other letter in front of a line is a word of its own, or belongs to the first word. -/
theorem LaidOut.letter {ws : List String} {line : String} (h : LaidOut ws line) {c : Char}
    (hc : ¬IsCut c) : ∃ ws', LaidOut ws' (String.singleton c ++ line) := by
  have hword := isWord_singleton hc
  obtain ⟨hwords, before, text, after, hbefore, hjoined, hafter, rfl⟩ := h
  cases ws with
  | nil =>
      -- Nothing follows but a gap.
      refine ⟨[String.singleton c], List.forall_mem_singleton.2 hword, "", String.singleton c,
        before ++ after, isGap_empty, .last _, hbefore.append hafter, ?_⟩
      rw [hjoined.eq_empty, String.append_empty, String.empty_append]
  | cons w rest =>
      by_cases hnone : before = ""
      · rw [List.forall_mem_cons] at hwords
        refine ⟨(String.singleton c ++ w) :: rest,
          List.forall_mem_cons.2 ⟨hword.append hwords.1, hwords.2⟩, "", String.singleton c ++ text,
          after, isGap_empty, hjoined.prepend _, hafter, ?_⟩
        rw [hnone, String.empty_append, String.empty_append, String.append_assoc]
      · refine ⟨String.singleton c :: w :: rest, List.forall_mem_cons.2 ⟨hword, hwords⟩, "",
          String.singleton c ++ before ++ text, after, isGap_empty, .step hbefore hnone hjoined,
          hafter, ?_⟩
        rw [String.empty_append, String.append_assoc, String.append_assoc, String.append_assoc]

/-- Every line is laid out in some way, by induction on its letters from the last. -/
theorem exists_laidOut (line : String) : ∃ ws, LaidOut ws line := by
  obtain ⟨cs, rfl⟩ : ∃ cs, line = String.ofList cs := ⟨line.toList, String.ofList_toList.symm⟩
  induction cs with
  | nil => exact ⟨[], List.forall_mem_nil _, "", "", "", isGap_empty, .none, isGap_empty, rfl⟩
  | cons c cs ih =>
      obtain ⟨ws, h⟩ := ih
      rw [String.ofList_cons]
      by_cases hc : IsCut c
      · exact ⟨ws, h.cut hc⟩
      · exact h.letter hc

/-- The words of a line are those that it is laid out as. -/
theorem words_eq_iff {line : String} {ws : List String} : words line = ws ↔ LaidOut ws line := by
  constructor
  · intro h
    obtain ⟨ws', hlaid⟩ := exists_laidOut line
    rw [← h, hlaid.words_eq]
    exact hlaid
  · exact LaidOut.words_eq

/-- The words of a line are not empty, have neither kind of space in them, and hold all of the line
    but its spaces. What stands on the two sides of a space is cut separately. And words come back
    from whatever joins them by runs of spaces. -/
theorem words_grammar :
    (∀ line, (∀ w ∈ words line, IsWord w) ∧
      String.join (words line) = String.ofList (line.toList.filter fun c => ¬IsCut c)) ∧
    (∀ a b c, IsCut c → words (a ++ String.singleton c ++ b) = words a ++ words b) ∧
    ∀ tokens text, (∀ w ∈ tokens, IsWord w) → Joined tokens text → words text = tokens := by
  refine ⟨fun line => ⟨fun w hw => isWord_of_mem_words hw, ?_⟩,
    fun a b c hc => words_append_cut hc a b, fun tokens text hwords hjoined => ?_⟩
  · apply String.toList_injective
    rw [String.toList_join, flatMap_words, String.toList_ofList]
    refine List.filter_congr fun c _ => ?_
    rw [decide_eq_decide, IsCut, not_or]
  · have hlaid : LaidOut tokens text :=
      ⟨hwords, "", text, "", isGap_empty, hjoined, isGap_empty, by simp⟩
    exact words_eq_iff.2 hlaid

/-- A no-break space in a run of spaces, and a tab in a word. -/
theorem words_grammar_listing :
    let text := "ls" ++ " \u00a0 " ++ ("-a" ++ "   " ++ "docs\t1")
    IsCut noBreakSpace ∧ (∀ w ∈ ["ls", "-a", "docs\t1"], IsWord w) ∧
      Joined ["ls", "-a", "docs\t1"] text ∧ words text = ["ls", "-a", "docs\t1"] ∧
      words ("ls" ++ String.singleton noBreakSpace ++ "-a") = words "ls" ++ words "-a" := by
  intro text
  have hcut : IsCut noBreakSpace := .inr rfl
  have hwords : ∀ w ∈ ["ls", "-a", "docs\t1"], IsWord w := by decide
  have hjoined : Joined ["ls", "-a", "docs\t1"] text :=
    .step (by decide) (by decide) (.step (by decide) (by decide) (.last _))
  exact ⟨hcut, hwords, hjoined, words_grammar.2.2 _ text hwords hjoined,
    words_grammar.2.1 "ls" "-a" noBreakSpace hcut⟩

end TreeShell
