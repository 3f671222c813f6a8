import TreeShell.Text.Split

/-!
# Words of a Line

A line is cut into words at its spaces and nowhere else: there are no quotes, and a tab is part of a
word. A no-break space counts as a space, because hosts put one where the user typed a space.

## Main definitions

* `spaced`: A line with its no-break spaces turned into spaces.
* `words`: The words of a line.

## Theorems

* `words_append`: The words on both sides of a space are counted separately.
-/

namespace TreeShell

/-- The no-break space. -/
def noBreakSpace : Char := '\u00a0'

/-- A line with its no-break spaces turned into spaces. -/
def spaced (line : String) : String := Text.swap noBreakSpace ' ' line

/-- The words of a line: the pieces between spaces, without the empty ones. -/
def words (line : String) : List String :=
  (Text.split ' ' (spaced line)).filter (· ≠ "")

/-- The words on both sides of a space are counted separately. -/
theorem words_append (a b : String) : words (a ++ " " ++ b) = words a ++ words b := by
  have hspaced : spaced (a ++ " " ++ b) = spaced a ++ String.singleton ' ' ++ spaced b := by
    apply String.toList_injective
    simp [spaced, Text.swap, String.toList_append]
  rw [words, words, words, ← List.filter_append, hspaced, Text.split_append]

/-- A word and a space in front of a line put the word in front of its words. -/
theorem words_cons {word : String} (h : words word = [word]) (line : String) :
    words (word ++ " " ++ line) = word :: words line := by
  rw [words_append, h, List.singleton_append]

end TreeShell
