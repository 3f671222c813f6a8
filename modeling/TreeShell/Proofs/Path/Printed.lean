import TreeShell.Path.Normalize

/-!
# Typing a Printed Path

The shell prints paths and reads them back: a hint becomes a line, a login link names a directory,
and the repository's place is looked for under its printed form. This works for the paths that
typed text can name. An ordinary name is pushed by the replay as it stands, so the replay of
ordinary names is nothing but their list, and the pieces of a printed path are its names again.

There are two printed forms, and one reader for both. The whole path begins with a slash, which
leads to the root from anywhere; the form used in prompts begins with a tilde where the path is home
or below it. Which of the two was printed shows in the first piece, so neither is taken for the
other, and a name that is itself a tilde does no harm, because it never comes first.

Other paths need not come back. A segment that is empty, a dot or two dots is read as a step, and
one that holds a slash as two.

## Main definitions

* `Path.Settled`: Names that a replay pushes wherever they come.

## Theorems

* `foldl_step_of_settled`: The replay of such names adds them to the stack.
* `step_of_ordinary`, `foldl_step_of_ordinary`: Ordinary names are pushed as they stand.
* `text_eq_intercalate`: A printed path is its names behind an empty piece.
* `mem_joined_iff`, `mem_text_iff`: What is written in a joined path and in a printed one.
* `head?_text`: A printed path begins with a slash.
* `normalize_text`: The printed form of an ordinary path names that path, wherever it is typed.
* `normalize_belowHome`: Behind `~/` the names are counted from the home directory.
* `normalize_display`: The form used in prompts names the path as well.
* `text_inj`, `display_inj`: No two ordinary paths are printed alike.
* `printed_reads_back`: All of this together.
-/

namespace TreeShell.Path

/-- An ordinary name is pushed as it stands. -/
theorem step_of_ordinary {name : String} (h : OrdinaryName name) (stack : List String) :
    step stack name = stack ++ [name] :=
  step_of_ne h.1 h.2.2.1 h.2.2.2 stack

/-- Names that a replay pushes, whatever stands on the stack before them. -/
def Settled (names : List String) : Prop := ∀ s ∈ names, ∀ stack, step stack s = stack ++ [s]

/-- The replay of such names adds them to the stack. -/
theorem foldl_step_of_settled {names : List String} (h : Settled names) (stack : List String) :
    names.foldl step stack = stack ++ names := by
  induction names generalizing stack with
  | nil => rw [List.foldl_nil, List.append_nil]
  | cons name names ih =>
      rw [List.foldl_cons, h name List.mem_cons_self,
        ih (fun s hs => h s (List.mem_cons_of_mem _ hs)), List.append_assoc, List.singleton_append]

/-- The names of an ordinary path are such names. -/
theorem Ordinary.settled {p : Path} (h : p.Ordinary) : Settled p.segments :=
  fun s hs => step_of_ordinary (h s hs)

/-- So the replay of ordinary names adds them to the stack. -/
theorem foldl_step_of_ordinary {names : List String} (h : ∀ s ∈ names, OrdinaryName s)
    (stack : List String) : names.foldl step stack = stack ++ names :=
  foldl_step_of_settled (fun s hs => step_of_ordinary (h s hs)) stack

/-- No ordinary path has a name with a slash in it. -/
theorem Ordinary.slash_notMem {p : Path} (h : p.Ordinary) : ∀ s ∈ p.segments, '/' ∉ s.toList :=
  fun s hs => (h s hs).2.1

/-- Joining pieces behind an empty one writes a slash before each of them. -/
theorem intercalate_empty_cons (names : List String) (h : names ≠ []) :
    "/".intercalate ("" :: names) = String.join (names.map ("/" ++ ·)) := by
  induction names with
  | nil => exact absurd rfl h
  | cons name names ih =>
      rw [String.intercalate_cons_cons, String.empty_append, List.map_cons, String.join_cons]
      -- With a name to follow, the slash that joins them is the one written before it.
      cases names with
      | nil => rw [String.intercalate_singleton, List.map_nil, String.join_nil, String.append_empty]
      | cons other names =>
          have hrest := ih (List.cons_ne_nil _ _)
          rw [String.intercalate_cons_cons, String.empty_append] at hrest
          rw [String.intercalate_cons_cons, ← hrest, String.append_assoc, String.append_assoc]

/-- The printed form of a path that is not the root: its names behind an empty piece. -/
theorem text_eq_intercalate {p : Path} (h : p.segments ≠ []) :
    p.text = "/".intercalate ("" :: p.segments) := by
  have hroot : p.isRoot = false := by
    rw [isRoot, List.isEmpty_eq_false_iff]
    exact h
  rw [text, hroot, intercalate_empty_cons _ h]
  rfl

/-- A letter other than the slash is written in a joined path if it is written in one of its
    names. -/
theorem mem_joined_iff {c : Char} (h : c ≠ '/') (names : List String) :
    c ∈ (joined names).toList ↔ ∃ name ∈ names, c ∈ name.toList := by
  induction names with
  | nil => simp [joined]
  | cons name names ih =>
      cases names with
      | nil => simp [joined]
      | cons other names =>
          have hslash : c ∉ "/".toList := by simpa using h
          rw [joined, String.intercalate_cons_cons, ← joined, String.toList_append,
            String.toList_append, List.mem_append, List.mem_append, ih]
          simp only [hslash, or_false, List.mem_cons, exists_eq_or_imp]

/-- So is it in the printed form. -/
theorem mem_text_iff {c : Char} (h : c ≠ '/') (p : Path) :
    c ∈ p.text.toList ↔ ∃ name ∈ p.segments, c ∈ name.toList := by
  by_cases hroot : p.segments = []
  · have htext : p.text = "/" := by
      rw [text, isRoot, hroot]
      rfl
    have hslash : c ∉ "/".toList := by simpa using h
    rw [htext, hroot]
    refine ⟨fun hc => absurd hc hslash, ?_⟩
    rintro ⟨_, hname, _⟩
    exact absurd hname List.not_mem_nil
  · rw [text_eq_intercalate hroot, ← joined, mem_joined_iff h]
    simp only [List.mem_cons, exists_eq_or_imp, String.toList_empty, List.not_mem_nil, false_or]

/-- A printed path begins with a slash. -/
theorem head?_text (path : Path) : path.text.toList.head? = some '/' := by
  rcases path with ⟨_ | ⟨first, rest⟩⟩
  · rfl
  · have htext : (⟨first :: rest⟩ : Path).text =
        String.join ((first :: rest).map ("/" ++ ·)) := rfl
    rw [htext, List.map_cons, String.join_cons, String.toList_append, String.toList_append]
    rfl

/-- The printed form of an ordinary path names that path, wherever it is typed. -/
theorem normalize_text {p : Path} (h : p.Ordinary) (cwd home : Path) :
    normalize cwd home p.text = p := by
  by_cases hroot : p.segments = []
  · -- The root is printed as a lone slash, which is two empty pieces.
    have hp : p = root := by
      cases p
      rw [root, mk.injEq]
      exact hroot
    rw [hp]
    rfl
  · have hsplit : Text.split '/' p.text = "" :: p.segments := by
      rw [text_eq_intercalate hroot]
      refine Text.split_join '/' _ (List.cons_ne_nil _ _) (fun s hs => ?_)
      rcases List.mem_cons.1 hs with rfl | hs
      · exact List.not_mem_nil
      · exact h.slash_notMem s hs
    rw [normalize, hsplit]
    -- The empty first piece starts at the root, so neither directory is used.
    simp only [List.headD_cons, List.tail_cons, start, if_true, List.nil_append]
    rw [foldl_step_of_ordinary h, List.nil_append]

/-- Behind `~/`, ordinary names are counted from the home directory. -/
theorem normalize_belowHome {home : Path} (hhome : home.Ordinary) {names : List String}
    (hne : names ≠ []) (h : ∀ s ∈ names, OrdinaryName s) (cwd : Path) :
    normalize cwd home ("~/" ++ joined names) = ⟨home.segments ++ names⟩ := by
  -- The tilde is a piece of its own, and the replay puts the home directory in its place.
  have htext : "~/" ++ joined names = "/".intercalate ("~" :: names) := by
    rw [String.intercalate_cons_of_ne_nil hne, joined]
    rfl
  have hsplit : Text.split '/' ("~/" ++ joined names) = "~" :: names := by
    rw [htext]
    refine Text.split_join '/' _ (List.cons_ne_nil _ _) (fun s hs => ?_)
    rcases List.mem_cons.1 hs with rfl | hs
    · decide
    · exact (h s hs).2.1
  rw [normalize, hsplit]
  simp only [List.headD_cons, List.tail_cons]
  rw [show start cwd home "~" = home.segments from rfl, List.foldl_append,
    foldl_step_of_ordinary hhome, foldl_step_of_ordinary h, List.nil_append]

/-- A tilde alone is home. -/
theorem normalize_tilde {home : Path} (hhome : home.Ordinary) (cwd : Path) :
    normalize cwd home "~" = home := by
  have hpieces : normalize cwd home "~" = ⟨(home.segments ++ []).foldl step []⟩ := rfl
  rw [hpieces, List.append_nil, foldl_step_of_ordinary hhome, List.nil_append]

/-- The form used in prompts names an ordinary path, wherever it is typed. Nothing is asked of the
    home directory: if it has a name that cannot be typed, then an ordinary path is neither home nor
    below it, and is printed in full. -/
theorem normalize_display {p : Path} (h : p.Ordinary) (cwd home : Path) :
    normalize cwd home (p.display home) = p := by
  unfold display
  split
  · rename_i hsame
    rw [hsame] at h ⊢
    exact normalize_tilde h cwd
  · split
    · rename_i rest hbelow
      rcases below?_eq_some_iff.1 hbelow with ⟨names, hne, hsegments, rfl⟩
      have hboth : ∀ s ∈ home.segments ++ names, OrdinaryName s := hsegments ▸ h
      have hhome : home.Ordinary := fun s hs => hboth s (List.mem_append_left _ hs)
      rw [normalize_belowHome hhome hne fun s hs => hboth s (List.mem_append_right _ hs),
        ← hsegments]
    · exact normalize_text h cwd home

/-- No two ordinary paths are printed alike, since each is read back from its printed form. -/
theorem text_inj {p q : Path} (hp : p.Ordinary) (hq : q.Ordinary) (h : p.text = q.text) :
    p = q := by
  rw [← normalize_text hp root root, h, normalize_text hq]

/-- Nor are two of them shown alike in the prompts of one user. -/
theorem display_inj {p q : Path} (hp : p.Ordinary) (hq : q.Ordinary) {home : Path}
    (h : p.display home = q.display home) : p = q := by
  rw [← normalize_display hp root home, h, normalize_display hq]

/-- Both printed forms of an ordinary path are read back as that path, from any directory and for
    any home, so no two ordinary paths are printed alike. Whatever is typed comes to an ordinary
    path, as long as no name of the two directories it may start from has a slash in it. So what was
    typed once can be printed in either form and typed again anywhere else, and is the same. -/
theorem printed_reads_back :
    (∀ p cwd home : Path, p.Ordinary →
      normalize cwd home p.text = p ∧ normalize cwd home (p.display home) = p) ∧
    (∀ p q home : Path, p.Ordinary → q.Ordinary →
      (p.text = q.text → p = q) ∧ (p.display home = q.display home → p = q)) ∧
    ∀ cwd home : Path, (∀ s ∈ cwd.segments, '/' ∉ s.toList) →
      (∀ s ∈ home.segments, '/' ∉ s.toList) → ∀ input,
        let typed := normalize cwd home input
        typed.Ordinary ∧ ∀ cwd' home' : Path,
          normalize cwd' home' typed.text = typed ∧
            normalize cwd' home' (typed.display home') = typed := by
  refine ⟨fun p cwd home hp => ⟨normalize_text hp cwd home, normalize_display hp cwd home⟩,
    fun p q home hp hq => ⟨text_inj hp hq, display_inj hp hq⟩, ?_⟩
  intro cwd home hcwd hhome input typed
  have htyped : typed.Ordinary := normalize_ordinary hcwd hhome input
  exact ⟨htyped, fun cwd' home' =>
    ⟨normalize_text htyped cwd' home', normalize_display htyped cwd' home'⟩⟩

/-- A directory below home that is named like home, one whose name only begins like that of the
    user, and a typed path that leaves the root on its way. -/
theorem printed_reads_back_tilde :
    let home : Path := .home "u"
    let below : Path := ⟨["home", "u", "~"]⟩
    let beside : Path := ⟨["home", "u2"]⟩
    below.display home = "~/~" ∧ normalize beside home "~/~" = below ∧
      beside.display home = "/home/u2" ∧ normalize below home "/home/u2" = beside ∧
      below.text ≠ beside.text ∧
      normalize root home ((normalize below home "../..//../../tmp/.").display home) =
        ⟨["tmp"]⟩ := by
  intro home below beside
  have hbelow : below.Ordinary := by decide
  have hbeside : beside.Ordinary := by decide
  rcases printed_reads_back with ⟨hback, hinj, htyped⟩
  refine ⟨by decide, (hback below beside home hbelow).2, by decide,
    (hback beside below home hbeside).1, fun hsame => ?_, ?_⟩
  · exact absurd ((hinj below beside home hbelow hbeside).1 hsame) (by decide)
  · have hagain := htyped below home hbelow.slash_notMem (by decide)
      "../..//../../tmp/."
    rw [(hagain.2 root home).2]
    decide

end TreeShell.Path
