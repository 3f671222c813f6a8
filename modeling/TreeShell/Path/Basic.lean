/-!
# Absolute Paths

A path is the list of its segments, and the empty list is the root. Segments are kept as given: a
path built from a listing or a configuration may hold a segment that no typed text could name, and
the operations here do not repair it. What typed text can name is `Path.Ordinary`.

## Main definitions

* `Path`: An absolute path.
* `Path.text`: Its printed form.
* `Path.below?`: What is left of a path strictly below another.
* `Path.display`: Its short form, seen from a home directory.
* `Path.Ordinary`: Every segment is a plain name.
-/

namespace TreeShell

/-- An absolute path held as its segments. -/
structure Path where
  segments : List String
  deriving DecidableEq, Repr, Inhabited

namespace Path

/-- The root. -/
def root : Path := ⟨[]⟩

/-- The home directory of a user. -/
def home (user : String) : Path := ⟨["home", user]⟩

/-- Whether a path is the root. -/
def isRoot (p : Path) : Bool := p.segments.isEmpty

/-- The last segment, which the root does not have. -/
def name? (p : Path) : Option String := p.segments.getLast?

/-- The containing directory. The root contains itself. -/
def parent (p : Path) : Path := ⟨p.segments.dropLast⟩

/-- The path of an entry of the directory at `p`. -/
def child (p : Path) (name : String) : Path := ⟨p.segments ++ [name]⟩

/-- Whether `p` is `base` or lies below it. -/
def isWithin (p base : Path) : Bool := base.segments.isPrefixOf p.segments

/-- The segments joined by slashes, without a leading one. -/
def joined (segments : List String) : String := "/".intercalate segments

/-- The part of `p` below `base`, where `p` lies strictly below it. -/
def below? (p base : Path) : Option String :=
  if base.segments.length < p.segments.length ∧ p.isWithin base then
    some (joined (p.segments.drop base.segments.length))
  else none

/-- The printed form: a slash before each segment, and a lone slash for the root. -/
def text (p : Path) : String :=
  if p.isRoot then "/" else String.join (p.segments.map ("/" ++ ·))

/-- The short form used in prompts: `~` for home and `~/rest` below it. -/
def display (p home : Path) : String :=
  if p = home then "~"
  else match p.below? home with
    | some rest => "~/" ++ rest
    | none => p.text

/-- The names that typed text can reach: not empty, without a slash, and neither `.` nor `..`. -/
def OrdinaryName (s : String) : Prop :=
  s ≠ "" ∧ '/' ∉ s.toList ∧ s ≠ "." ∧ s ≠ ".."

instance (s : String) : Decidable (OrdinaryName s) :=
  inferInstanceAs (Decidable (_ ∧ _ ∧ _ ∧ _))

/-- Every segment is a name that typed text can reach. -/
def Ordinary (p : Path) : Prop := ∀ s ∈ p.segments, OrdinaryName s

instance (p : Path) : Decidable p.Ordinary :=
  inferInstanceAs (Decidable (∀ s ∈ p.segments, OrdinaryName s))

@[simp] theorem segments_root : root.segments = [] := rfl

@[simp] theorem segments_child (p : Path) (name : String) :
    (p.child name).segments = p.segments ++ [name] := rfl

@[simp] theorem parent_child (p : Path) (name : String) : (p.child name).parent = p := by
  simp [child, parent]

@[simp] theorem name?_child (p : Path) (name : String) : (p.child name).name? = some name := by
  simp [child, name?]

/-- Every path but the root is that of an entry. -/
theorem exists_eq_child {p : Path} (h : p.segments ≠ []) : ∃ dir name, p = child dir name :=
  ⟨p.parent, p.segments.getLast h, by rw [child, parent, List.dropLast_concat_getLast]⟩

theorem isWithin_iff {p base : Path} :
    p.isWithin base = true ↔ ∃ rest, p.segments = base.segments ++ rest := by
  rw [isWithin, List.isPrefixOf_iff_prefix]
  exact ⟨fun ⟨rest, h⟩ => ⟨rest, h.symm⟩, fun ⟨rest, h⟩ => ⟨rest, h.symm⟩⟩

/-- A path is strictly below `base` when some segments follow those of `base`. -/
theorem below?_eq_some_iff {p base : Path} {rest : String} :
    p.below? base = some rest ↔
      ∃ segs, segs ≠ [] ∧ p.segments = base.segments ++ segs ∧ joined segs = rest := by
  unfold below?
  constructor
  · intro h
    split at h
    · rename_i hp
      obtain ⟨segs, hsegs⟩ := isWithin_iff.1 hp.2
      refine ⟨segs, ?_, hsegs, by simpa [hsegs] using h⟩
      rintro rfl
      simp [hsegs] at hp
    · cases h
  · rintro ⟨segs, hne, hsegs, rfl⟩
    have hlen : 0 < segs.length := List.length_pos_iff.2 hne
    rw [if_pos ⟨by simp [hsegs, hlen], isWithin_iff.2 ⟨segs, hsegs⟩⟩]
    simp [hsegs]

end Path

end TreeShell
