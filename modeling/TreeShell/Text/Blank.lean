/-!
# White Space

Trimming follows the Unicode property `White_Space`, which is wider than the six ASCII blanks: a
link file saved with a trailing no-break space or an ideographic space must still open. The
property is closed by the standard, so it is written out here in full.

## Main definitions

* `Text.isBlank`: Membership in `White_Space`.
* `Text.trim`: A text without the blanks at its two ends.

## Theorems

* `Text.isBlank_of_isWhitespace`: The ASCII blanks are among them.
-/

namespace TreeShell.Text

/-- The code points with the property `White_Space`, as closed ranges. -/
def blankRanges : List (Nat × Nat) :=
  [(0x09, 0x0d), (0x20, 0x20), (0x85, 0x85), (0xa0, 0xa0), (0x1680, 0x1680), (0x2000, 0x200a),
    (0x2028, 0x2029), (0x202f, 0x202f), (0x205f, 0x205f), (0x3000, 0x3000)]

/-- Whether a character is white space. -/
def isBlank (c : Char) : Bool :=
  blankRanges.any fun (lo, hi) => lo ≤ c.toNat && c.toNat ≤ hi

/-- Every ASCII blank is white space. -/
theorem isBlank_of_isWhitespace {c : Char} (h : c.isWhitespace = true) : isBlank c = true := by
  simp only [Char.isWhitespace, Bool.or_eq_true, decide_eq_true_eq] at h
  rcases h with ((rfl | rfl) | rfl) | rfl <;> decide

/-- A list of characters without the blanks at its two ends. -/
def trimChars (s : List Char) : List Char :=
  ((s.dropWhile isBlank).reverse.dropWhile isBlank).reverse

/-- A text without the blanks at its two ends. -/
def trim (s : String) : String :=
  String.ofList (trimChars s.toList)

end TreeShell.Text
