import TreeShell.Proofs.Path.Printed

/-!
# Going On From a Typed Path

To go somewhere in two steps, or to type both parts with a slash between them, comes to the same.
The replay is a fold, so a longer text only continues it; what is left to show is that it can be
taken up again from where it stopped. There it stops with names that it has pushed, and each of
these is pushed again wherever it comes: empty pieces and dots are not among them, since the replay
never leaves one behind. This needs no condition on the two directories, as it is the replay that
cleans them.

The second part has to continue the first. A text that begins with a slash starts over at the root,
and one that begins with a tilde of its own starts over at home, while behind a slash a tilde is a
name like any other. So the first piece of the second part must be neither empty nor a tilde.

## Theorems

* `settled_normalize`: What a replay leaves is pushed again as it stands.
* `normalize_append`: Text behind a slash continues the replay.
* `normalize_relative`: Relative text continues the replay of the directory it is typed in.
* `normalize_normalize`: Two steps, or one.
* `normalize_append_joined`: Ordinary names behind a slash are added to the path.
* `mem_split_of_mem_normalize`: What is typed behind a slash names nothing else.
* `normalize_child`, `eq_of_normalize_eq_child`: What can be typed for an entry of the directory.
-/

namespace TreeShell.Path

/-- A replay leaves only names that are pushed again as they stand: each was pushed for what it is,
    not for what stood before it. So a typed path is replayed as itself. -/
theorem settled_normalize (cwd home : Path) (input : String) :
    Settled (normalize cwd home input).segments := by
  intro s hs
  rcases mem_foldl_step hs with hroot | ⟨_, hempty, hdot, hdots⟩
  · exact absurd hroot List.not_mem_nil
  · exact step_of_ne hempty hdot hdots

/-- Text behind a slash continues the replay, whatever stands before the slash. -/
theorem normalize_append (cwd home : Path) (a b : String) :
    normalize cwd home (a ++ "/" ++ b) =
      ⟨(Text.split '/' b).foldl step (normalize cwd home a).segments⟩ := by
  have hsplit : Text.split '/' (a ++ "/" ++ b) = Text.split '/' a ++ Text.split '/' b :=
    Text.split_append '/' a b
  rw [normalize, normalize, hsplit]
  -- The first piece, which decides where the replay starts, is that of the first part.
  cases hfirst : Text.split '/' a with
  | nil => exact absurd hfirst (Text.split_ne_nil _ _)
  | cons first rest =>
      simp only [List.cons_append, List.headD_cons, List.tail_cons]
      rw [← List.append_assoc, List.foldl_append]

/-- Ordinary names behind a slash are added to the path. -/
theorem normalize_append_joined {names : List String} (hne : names ≠ [])
    (h : ∀ s ∈ names, OrdinaryName s) (cwd home : Path) (a : String) :
    normalize cwd home (a ++ "/" ++ joined names) =
      ⟨(normalize cwd home a).segments ++ names⟩ := by
  have hsplit : Text.split '/' (joined names) = names :=
    Text.split_join '/' names hne fun s hs => (h s hs).2.1
  rw [normalize_append, hsplit, foldl_step_of_ordinary h]

/-- A text that begins with neither an empty piece nor a tilde continues the replay of the
    directory it is typed in. -/
theorem normalize_relative {b : String} (hempty : (Text.split '/' b).headD "" ≠ "")
    (htilde : (Text.split '/' b).headD "" ≠ "~") (cwd home : Path) :
    normalize cwd home b = ⟨(Text.split '/' b).foldl step (cwd.segments.foldl step [])⟩ := by
  rw [normalize]
  cases hsplit : Text.split '/' b with
  | nil => exact absurd hsplit (Text.split_ne_nil _ _)
  | cons first rest =>
      rw [hsplit, List.headD_cons] at hempty htilde
      simp only [List.headD_cons, List.tail_cons]
      rw [start, if_neg hempty, if_neg htilde, List.append_assoc, List.singleton_append,
        List.foldl_append]

/-- To read `b` from where `a` leads is to read both with a slash between them. -/
theorem normalize_normalize {b : String} (hempty : (Text.split '/' b).headD "" ≠ "")
    (htilde : (Text.split '/' b).headD "" ≠ "~") (cwd home : Path) (a : String) :
    normalize (normalize cwd home a) home b = normalize cwd home (a ++ "/" ++ b) := by
  rw [normalize_relative hempty htilde, normalize_append,
    foldl_step_of_settled (settled_normalize cwd home a), List.nil_append]

/-- A text that begins with a slash starts at the root, so all the names of its path were typed. -/
theorem mem_split_of_mem_normalize {input : String} (h : input.toList.head? = some '/')
    {cwd home : Path} {s : String} (hs : s ∈ (normalize cwd home input).segments) :
    s ∈ Text.split '/' input := by
  obtain ⟨rest, rfl⟩ : ∃ rest : String, input = "" ++ "/" ++ rest := by
    cases hinput : input.toList with
    | nil =>
        rw [hinput] at h
        cases h
    | cons c cs =>
        rw [hinput] at h
        cases Option.some.inj h
        exact ⟨String.ofList cs, String.toList_injective (by simp [hinput])⟩
  rw [normalize_append] at hs
  have hsplit : Text.split '/' ("" ++ "/" ++ rest) = Text.split '/' "" ++ Text.split '/' rest :=
    Text.split_append '/' "" rest
  rw [hsplit]
  rcases mem_foldl_step hs with hroot | ⟨hrest, _⟩
  · exact absurd hroot List.not_mem_nil
  · exact List.mem_append_right _ hrest

/-- A text without a slash is one piece: nothing, home, or one step from the directory. -/
theorem normalize_of_slash_notMem {s : String} (h : '/' ∉ s.toList) (cwd home : Path) :
    normalize cwd home s = ⟨(start cwd home s).foldl step []⟩ := by
  rw [normalize, Text.split_of_notMem h]
  simp only [List.headD_cons, List.tail_cons, List.append_nil]

section Name

variable {dir home : Path} (hdir : Settled dir.segments)

include hdir

/-- Such a text, if it is neither empty nor a tilde, is one step from the directory. -/
theorem normalize_name {s : String} (h : '/' ∉ s.toList) (hempty : s ≠ "") (htilde : s ≠ "~") :
    normalize dir home s = ⟨step dir.segments s⟩ := by
  rw [normalize_of_slash_notMem h, start, if_neg hempty, if_neg htilde, List.foldl_append,
    foldl_step_of_settled hdir, List.nil_append, List.foldl_cons, List.foldl_nil]

/-- So an ordinary name that is no tilde names the entry of the directory. -/
theorem normalize_child {name : String} (h : OrdinaryName name) (htilde : name ≠ "~") :
    normalize dir home name = dir.child name := by
  rw [normalize_name hdir h.2.1 h.1 htilde, step_of_ordinary h, child]

/-- And it is the only such text that does, but for a tilde where the entry is home. -/
theorem eq_of_normalize_eq_child (hhome : Settled home.segments) {s name : String}
    (h : '/' ∉ s.toList) (hempty : s ≠ "") (hpath : normalize dir home s = dir.child name) :
    s = name ∧ s ≠ "~" ∨ s = "~" ∧ dir.child name = home := by
  by_cases htilde : s = "~"
  · refine .inr ⟨htilde, ?_⟩
    rw [← hpath, normalize_of_slash_notMem h, htilde,
      show start dir home "~" = home.segments from rfl, foldl_step_of_settled hhome,
      List.nil_append]
  · rw [normalize_name hdir h hempty htilde, child, mk.injEq] at hpath
    -- Staying and leaving do not make the path longer, so the text was pushed.
    unfold step at hpath
    split at hpath
    · have hlength := congrArg List.length hpath
      rw [List.length_append, List.length_singleton] at hlength
      omega
    · split at hpath
      · have hlength := congrArg List.length hpath
        rw [List.length_append, List.length_singleton, List.length_dropLast] at hlength
        omega
      · exact .inl ⟨List.singleton_inj.1 (List.append_cancel_left hpath), htilde⟩

end Name

end TreeShell.Path
