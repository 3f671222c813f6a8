import TreeShell.Proofs.Session.Runs

/-!
# No Fetch but of a Readable File

The shell's tree is its only access control: the provider answers whoever asks. So it matters what
the shell asks for, and this is settled here for every line and every run. A line asks for the
contents of a file only if it names a readable file, by a path that no denied directory lies on, and
then it asks once, with an argument made of that path. A rebuild asks for listings and for the
repository's tree. Every other line asks for nothing.

For runs the property is one of the growing list of requests. Each of them that asks for contents
can be traced to the line that made it, and was justified by the tree as it was at that moment: the
tree may have changed since, or been replaced.

## Main definitions

* `Path.Keeps`: A place that is made of a path, in one of the two ways there are.
* `Session.Justified`: A request for contents that a line accounts for.

## Theorems

* `Path.keeps_place`: The place of a path is made of it.
* `Environment.Fetches.reaches`, `Environment.Fetches.not_denied`: A fetched file is readable, and
  nothing above it is denied.
* `Session.requests_line`, `Session.requests_act`, `Session.requests_after`: What a line, an action
  and a run ask for.
* `Session.requests_of_fetches`, `Session.lists_of_reset`, `Session.traffic_of_quiet`: How much a
  line asks for.
* `Session.requests_justified`: All of this together.
-/

namespace TreeShell

/-- `place` is made of the path `p` and nothing else: it is the whole path in object storage, or
    what is left of it below `root` in the repository. -/
def Path.Keeps (root p : Path) (place : Place) : Prop :=
  place = .storage ("/".intercalate p.segments) ∨
    ∃ below, below ≠ [] ∧ p.segments = root.segments ++ below ∧
      place = .repository ("/".intercalate below)

theorem Path.keeps_place (root p : Path) : root.Keeps p (p.place root) := by
  unfold place
  cases h : p.below? root with
  | none => exact .inl rfl
  | some rest =>
      rcases below?_eq_some_iff.1 h with ⟨below, hne, hsegments, rfl⟩
      exact .inr ⟨below, hne, hsegments, rfl⟩

namespace Environment.Fetches

variable {env : Environment} {argv : List String} {path : Path} {r : Request}

/-- The words of a rebuild fetch nothing. -/
theorem not_reset : ¬env.Fetches ["taso-cli", "reset"] path r := by
  rintro (⟨_, htyped, _⟩ | ⟨_, _, htyped, _⟩ | ⟨_, htyped, _⟩)
  · exact absurd (List.cons.inj htyped).1 (by decide)
  · exact absurd (List.cons.inj htyped).1 (by decide)
  · exact absurd (List.cons.inj htyped).1 (by decide)

/-- A fetch asks for contents, at a place made of the path. -/
theorem keeps (h : env.Fetches argv path r) :
    ∃ place, r.place? = some place ∧ env.repoRoot.Keeps path place := by
  rcases h with ⟨_, _, _, rfl⟩ | ⟨_, _, _, _, _, _, rfl⟩ | ⟨_, _, _, _, rfl⟩
  · exact ⟨_, rfl, Path.keeps_place env.repoRoot path⟩
  · exact ⟨_, rfl, Path.keeps_place env.repoRoot path⟩
  · -- A link file is asked for in object storage wherever it is.
    exact ⟨_, rfl, .inl rfl⟩

/-- The file that is fetched is a readable one. -/
theorem reaches (h : env.Fetches argv path r) :
    env.tree.follow path.segments = some (.file true) := by
  have hnames : ∃ operand, env.Readable operand path := by
    rcases h with ⟨operand, _, hnames, _⟩ | ⟨operand, _, _, hnames, _⟩ | ⟨operand, _, hnames, _⟩
    · exact ⟨operand, hnames⟩
    · exact ⟨operand, hnames⟩
    · exact ⟨operand, hnames⟩
  rcases hnames with ⟨operand, hnames⟩
  have hfound := hnames.found
  rw [Dir.resolve, Resolved.mk.injEq] at hfound
  rw [← hfound.2]
  exact hfound.1

/-- Nothing on the way to it is denied, since a denied directory answers for all that is asked for
    below it. -/
theorem not_denied (h : env.Fetches argv path r) {above : List String}
    (habove : above <+: path.segments) : env.tree.follow above ≠ some .denied := by
  intro hdenied
  rcases habove with ⟨rest, hrest⟩
  have hreaches := h.reaches
  -- Following on from the denied directory, the file would be a denial too.
  rw [← hrest, Dir.follow_denied_append hdenied] at hreaches
  cases hreaches

end Environment.Fetches

namespace Session

/-- If `r` asks for contents, then one of `lines` fetches with it, in the session it is run in. -/
def Justified (lines : List (Session × String)) (r : Request) : Prop :=
  ∀ place, r.place? = some place → ∃ t line path, (t, line) ∈ lines ∧
    t.environment.Fetches (words line) path r

theorem Justified.mono {lines more : List (Session × String)} (hsub : lines ⊆ more) (r : Request)
    (h : Justified lines r) : Justified more r := by
  intro place hplace
  rcases h place hplace with ⟨t, line, path, hmem, hfetches⟩
  exact ⟨t, line, path, hsub hmem, hfetches⟩

/-- A line asks for contents only where it fetches a file. -/
theorem requests_line {s : Session} (h : s.registry = .builtin) (line : String) :
    s.traffic.Grows (Justified [(s, line)]) (s.run line).2.traffic := by
  have heffect := s.effect_line line h
  rw [run_traffic]
  generalize (s.registry.execute line s.environment).2 = env at heffect ⊢
  have hfetched : ∀ path r, s.environment.Fetches (words line) path r →
      s.traffic.Grows (Justified [(s, line)]) (s.content.ask r s.traffic).2 := fun path r hcause =>
    ⟨[r], rfl, List.forall_mem_singleton.2 fun _ _ =>
      ⟨s, line, path, List.mem_singleton_self _, hcause⟩⟩
  -- Listings and trees need no justification, since they have no place.
  have hlists : ∀ traffic, s.traffic.Lists traffic →
      s.traffic.Grows (Justified [(s, line)]) traffic := fun traffic hlists =>
    hlists.mono fun r hnone place hplace => by
      rw [hnone] at hplace
      cases hplace
  cases heffect with
  | idle => exact .refl _ s.traffic
  | moved cwd named => exact .refl _ s.traffic
  | fetched cause => exact hfetched _ _ cause
  | shown gallery named cause => exact hfetched _ _ cause
  | signed accounts tokens named other => exact .refl _ s.traffic
  | refused typed admin built => exact hlists _ built.lists
  | replaced typed admin built => exact hlists _ built.lists

/-- An action asks for contents only at its lines, and only where these fetch a file. -/
theorem requests_act {s : Session} (h : s.registry = .builtin) (action : Action) :
    s.traffic.Grows (Justified (s.ran action)) (s.act action).traffic := by
  cases action with
  | boot hint =>
      have hlanded : (s.landed hint).registry = .builtin :=
        (s.sameSetting_landed hint).registry.trans h
      have htraffic : (s.landed hint).traffic = s.traffic := by rw [landed]
      rw [act, ran]
      cases hline : (s.landing hint).2 with
      | none =>
          rw [boot_of_none hline, htraffic]
          exact .refl _ s.traffic
      | some line =>
          rw [boot_of_some hline, ← htraffic]
          exact requests_line hlanded line
  | line text =>
      rw [act, ran]
      exact requests_line h text
  | hide =>
      rw [act, hide]
      exact .refl _ s.traffic
  | outside w =>
      rw [act, amid]
      exact .refl _ s.traffic

/-- So does a run, by induction on its actions. -/
theorem requests_after {s : Session} (h : s.registry = .builtin) (actions : List Action) :
    s.traffic.Grows (Justified (s.trace actions)) (s.after actions).traffic := by
  induction actions generalizing s with
  | nil => exact .refl _ s.traffic
  | cons action actions ih =>
      have hfirst := requests_act h action
      have hlater := ih ((s.sameSetting_act action).registry.trans h)
      rw [after_cons, trace]
      -- The requests come in the order of the lines, so both lists are put together alike.
      exact (hfirst.mono (Justified.mono (List.subset_append_left _ _))).trans
        (hlater.mono (Justified.mono (List.subset_append_right _ _)))

/-- A line that fetches makes its one request, and no other. -/
theorem requests_of_fetches {s : Session} (h : s.registry = .builtin) {line : String} {path : Path}
    {r : Request} (hfetches : s.environment.Fetches (words line) path r) :
    (s.run line).2.traffic.requests = s.traffic.requests ++ [r] := by
  rw [run_traffic, h, Registry.execute, Environment.dispatch_fetches hfetches]
  rfl

/-- A rebuild asks for no contents: a request for some would need a fetch to account for it. -/
theorem lists_of_reset {s : Session} (h : s.registry = .builtin) {line : String}
    (hline : words line = ["taso-cli", "reset"]) : s.traffic.Lists (s.run line).2.traffic := by
  refine (requests_line h line).mono fun r hcause => ?_
  cases hplace : r.place? with
  | none => rfl
  | some place =>
      rcases hcause place hplace with ⟨t, _, path, hmem, hfetches⟩
      cases List.mem_singleton.1 hmem
      rw [hline] at hfetches
      exact absurd hfetches Environment.Fetches.not_reset

/-- Any other line makes no request at all. -/
theorem traffic_of_quiet {s : Session} (h : s.registry = .builtin) {line : String}
    (hnone : ∀ path r, ¬s.environment.Fetches (words line) path r)
    (hother : ¬(words line = ["taso-cli", "reset"] ∧ s.accounts.AdminSignedIn)) :
    (s.run line).2.traffic = s.traffic := by
  have heffect := s.effect_line line h
  rw [run_traffic]
  generalize (s.registry.execute line s.environment).2 = env at heffect ⊢
  cases heffect with
  | idle => rfl
  | moved cwd named => rfl
  | fetched cause => exact absurd cause (hnone _ _)
  | shown gallery named cause => exact absurd cause (hnone _ _)
  | signed accounts tokens named other => rfl
  | refused typed admin built => exact absurd ⟨typed, admin⟩ hother
  | replaced typed admin built => exact absurd ⟨typed, admin⟩ hother

/-- No contents are asked for but those of a readable file, by a line that names it. A line asks at
    most once, with an argument made of the file's path, and otherwise asks for nothing unless an
    administrator rebuilds. In a run every request for contents was made by one of its lines, and
    when it was made the tree had a readable file there and no denied directory above it. -/
theorem requests_justified {s : Session} (h : s.registry = .builtin) :
    (∀ line,
      (∀ path r, s.environment.Fetches (words line) path r →
        (s.run line).2.traffic.requests = s.traffic.requests ++ [r] ∧
          ∃ place, r.place? = some place ∧ s.environment.repoRoot.Keeps path place) ∧
      (words line = ["taso-cli", "reset"] → s.accounts.AdminSignedIn →
        s.traffic.Lists (s.run line).2.traffic) ∧
      ((∀ path r, ¬s.environment.Fetches (words line) path r) →
        ¬(words line = ["taso-cli", "reset"] ∧ s.accounts.AdminSignedIn) →
        (s.run line).2.traffic = s.traffic)) ∧
    ∀ actions, ∃ asked, (s.after actions).traffic.requests = s.traffic.requests ++ asked ∧
      ∀ r ∈ asked, ∀ place, r.place? = some place → ∃ t line path, (t, line) ∈ s.trace actions ∧
        t.environment.Fetches (words line) path r ∧
        t.tree.follow path.segments = some (.file true) ∧
        ∀ above, above <+: path.segments → t.tree.follow above ≠ some .denied := by
  refine ⟨fun line => ?_, fun actions => ?_⟩
  · exact ⟨fun path r hfetches => ⟨requests_of_fetches h hfetches, hfetches.keeps⟩,
      fun hline _ => lists_of_reset h hline, traffic_of_quiet h⟩
  · rcases requests_after h actions with ⟨asked, hasked, hcause⟩
    refine ⟨asked, hasked, fun r hr place hplace => ?_⟩
    rcases hcause r hr place hplace with ⟨t, line, path, hmem, hfetches⟩
    exact ⟨t, line, path, hmem, hfetches, hfetches.reaches, fun _ => hfetches.not_denied⟩

/-- Showing the note of the demonstration: one request, for the note. -/
theorem requests_justified_note :
    let s := overTree (demoSetup .empty) (.ofList
      [("home", .dir (.ofList [("u", .dir (.ofList [("note.md", .file true)]))]))])
    (s.run "cat ./note.md").2.traffic.requests = [.text (.storage "home/u/note.md")] := by
  intro s
  have hfetches : s.environment.Fetches (words "cat ./note.md") ⟨["home", "u", "note.md"]⟩
      (.text (.storage "home/u/note.md")) :=
    .text "./note.md" (by decide) ⟨by decide, by rfl⟩ (by decide +kernel)
  exact (((requests_justified rfl).1 "cat ./note.md").1 _ _ hfetches).1

end Session

end TreeShell
