import TreeShell.Proofs.Path.Printed
import TreeShell.Proofs.Text.Percent

/-!
# The Query of a Link

A link ends in a query: behind the first question mark there are parameters, kept apart by
ampersands, and each of them is a name and a value around the first equals sign. Names and values
are read with their escapes. What is put into a query as it is, and not encoded before, must do
without the letters that mean something there. There are two of them. An ampersand begins another
parameter, and a percent sign with two digits behind it is read as something else. An equals sign or
a question mark in a value does no harm.

That is exact: a value comes out of a query as it was put in if and only if it is harmless
(`Query.read_value_iff`). If it holds an ampersand, there is at least one parameter more.

## Main definitions

* `Query.parameters`: The names and values in the query of a link.
* `Query.Carries`: The query of a link has these parameters and no others.
* `Query.Harmless`: A text that is read in a query as what it is.

## Theorems

* `Query.read_value_iff`: Only a harmless value is read as what was written.
* `Query.read_encoded`: An encoded value always is.
* `Query.harmless_text_iff`: A printed path is harmless exactly if all its names are.
-/

namespace TreeShell.Query

/-- A text cut at the first of some separators. -/
def cut (sep : Char) (cs : List Char) : List Char × List Char :=
  (cs.takeWhile (· ≠ sep), (cs.dropWhile (· ≠ sep)).tail)

/-- The name and the value of a parameter. -/
def parameter (cs : List Char) : List UInt8 × List UInt8 :=
  (Text.unescape (cut '=' cs).1, Text.unescape (cut '=' cs).2)

/-- The names and values of the parameters in a part of a query. -/
def read (cs : List Char) : List (List UInt8 × List UInt8) := (cs.splitOn '&').map parameter

/-- The names and values in the query of a link, which is what stands behind its first question
    mark. -/
def parameters (link : String) : List (List UInt8 × List UInt8) := read (cut '?' link.toList).2

/-- The query of a link has these names and values, in this order, and nothing else. -/
def Carries (link : String) (expected : List (String × String)) : Prop :=
  parameters link = expected.map fun p => (Text.utf8 p.1, Text.utf8 p.2)

/-- A text that may stand in a query as it is. -/
def Harmless (s : String) : Prop := '&' ∉ s.toList ∧ ¬Text.Escapes s.toList

theorem cut_append_cons {sep : Char} {before : List Char} (h : sep ∉ before)
    (after : List Char) : cut sep (before ++ sep :: after) = (before, after) := by
  have hbefore : ∀ c ∈ before, decide (c ≠ sep) = true := fun c hc =>
    decide_eq_true fun hsep => h (hsep ▸ hc)
  rw [cut, List.takeWhile_append_of_pos hbefore, List.dropWhile_append_of_pos hbefore,
    List.takeWhile_cons_of_neg (by simp), List.dropWhile_cons_of_neg (by simp), List.append_nil,
    List.tail_cons]

/-- Behind an ampersand another parameter begins. -/
theorem read_append (before after : List Char) :
    read (before ++ '&' :: after) = read before ++ read after := by
  rw [read, List.splitOn_append_cons_self, List.map_append]
  rfl

theorem read_ne_nil (cs : List Char) : read cs ≠ [] := by
  rw [read, Ne, List.map_eq_nil_iff]
  exact List.splitOn_ne_nil _ _

/-- What has no ampersand is one parameter. -/
theorem read_of_notMem {cs : List Char} (h : '&' ∉ cs) : read cs = [parameter cs] := by
  rw [read, List.splitOn_eq_singleton h, List.map_singleton]

/-- A parameter with an ampersand is read as more than one. -/
theorem length_read_of_mem {cs : List Char} (h : '&' ∈ cs) : 1 < (read cs).length := by
  obtain ⟨before, after, rfl⟩ := List.append_of_mem h
  have hbefore := List.length_pos_iff.2 (read_ne_nil before)
  have hafter := List.length_pos_iff.2 (read_ne_nil after)
  rw [read_append, List.length_append]
  omega

section Parameter

variable {name : String} (hname : '&' ∉ name.toList ∧ '=' ∉ name.toList ∧ '%' ∉ name.toList)

include hname

theorem parameter_eq (value : List Char) :
    parameter (name.toList ++ '=' :: value) = (Text.utf8 name, Text.unescape value) := by
  rw [parameter, cut_append_cons hname.2.1, Text.unescape_of_notMem hname.2.2]
  rfl

/-- A value that was put into a query as it is comes out again exactly if it is harmless. -/
theorem read_value_iff (value : String) :
    read (name.toList ++ '=' :: value.toList) = [(Text.utf8 name, Text.utf8 value)] ↔
      Harmless value := by
  by_cases hamp : '&' ∈ value.toList
  · refine iff_of_false (fun hread => ?_) fun hharmless => hharmless.1 hamp
    have hlength := length_read_of_mem
      (List.mem_append_right name.toList (List.mem_cons_of_mem '=' hamp))
    rw [hread] at hlength
    exact absurd hlength (by simp)
  · have hpiece : '&' ∉ name.toList ++ '=' :: value.toList := by
      simp [hname.1, hamp]
    rw [read_of_notMem hpiece, parameter_eq hname, List.singleton_inj, Prod.mk.injEq,
      Harmless, and_iff_right rfl, and_iff_right hamp]
    exact Text.unescape_eq_self_iff value.toList

/-- An encoded value always comes out. -/
theorem read_encoded (value : String) :
    read (name.toList ++ '=' :: (Text.percentEncode value).toList) =
      [(Text.utf8 name, Text.utf8 value)] := by
  have hpiece : '&' ∉ name.toList ++ '=' :: (Text.percentEncode value).toList := by
    simp [hname.1, Text.amp_notMem_percentEncode]
  rw [read_of_notMem hpiece, parameter_eq hname, Text.unescape_percentEncode]

end Parameter

section Harmless

/-- Without an ampersand and a percent sign a text is harmless. -/
theorem harmless_of_notMem {s : String} (hamp : '&' ∉ s.toList) (hpercent : '%' ∉ s.toList) :
    Harmless s :=
  ⟨hamp, Text.not_escapes_of_notMem hpercent⟩

theorem harmless_append_iff {before : String} (hamp : '&' ∉ before.toList)
    (hpercent : '%' ∉ before.toList) (after : String) :
    Harmless (before ++ after) ↔ Harmless after := by
  rw [Harmless, Harmless, String.toList_append, List.mem_append, or_iff_right hamp,
    Text.escapes_append_iff hpercent]

/-- No escape goes beyond one of some names that are joined. -/
theorem escapes_joined_iff (names : List String) :
    Text.Escapes (Path.joined names).toList ↔ ∃ name ∈ names, Text.Escapes name.toList := by
  have hempty : ¬Text.Escapes "".toList := Text.not_escapes_of_length (by decide)
  induction names with
  | nil => simpa [Path.joined] using hempty
  | cons name names ih =>
      cases names with
      | nil => simp [Path.joined]
      | cons other names =>
          have hjoined : (Path.joined (name :: other :: names)).toList =
              name.toList ++ '/' :: (Path.joined (other :: names)).toList := by
            rw [Path.joined, String.intercalate_cons_cons, ← Path.joined, String.toList_append,
              String.toList_append, List.append_assoc]
            rfl
          rw [hjoined, Text.escapes_append_cons_iff (by decide) (by decide)]
          refine (or_congr_right ih).trans ?_
          simp only [List.mem_cons, exists_eq_or_imp]

/-- Nor does one go beyond a name of a printed path. -/
theorem escapes_text_iff (p : Path) :
    Text.Escapes p.text.toList ↔ ∃ name ∈ p.segments, Text.Escapes name.toList := by
  have hempty : ¬Text.Escapes "".toList := Text.not_escapes_of_length (by decide)
  by_cases hroot : p.segments = []
  · have htext : p.text = "/" := by
      rw [Path.text, Path.isRoot, hroot]
      rfl
    rw [htext, hroot]
    exact iff_of_false (Text.not_escapes_of_length (by decide)) (by simp)
  · rw [Path.text_eq_intercalate hroot, ← Path.joined, escapes_joined_iff]
    simp only [List.mem_cons, exists_eq_or_imp, hempty, false_or]

/-- A printed path is harmless exactly if all its names are. -/
theorem harmless_text_iff (p : Path) : Harmless p.text ↔ ∀ name ∈ p.segments, Harmless name := by
  rw [Harmless, Path.mem_text_iff (by decide), escapes_text_iff]
  simp only [Harmless, not_exists, not_and, ← forall_and]

end Harmless

end TreeShell.Query
