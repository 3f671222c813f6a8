import TreeShell.Proofs.Command.Directory
import TreeShell.Proofs.Command.Words
import TreeShell.Proofs.Path.Relative
import TreeShell.Proofs.Session.Failure

/-!
# Going There in Two Steps

Paths compose, and so do the lines that follow them. After a `cd` that succeeds the session stands
where the operand leads, in the same tree and with the same home. A second operand typed there
names what both of them name with a slash between, so the second `cd` finds what a single one would
have found, and does the same about it. Only the text of a complaint differs, since it repeats what
was typed.

The first `cd` has to succeed. A single `cd` reads its whole operand before it looks, so it can
leave again by two dots what it could not have entered.

## Theorems

* `Session.fails_cd_iff`, `Session.run_cd_entered`: What a `cd` with an operand does.
* `Session.cd_composes`: Paths compose, and two steps come to the same as one.
-/

namespace TreeShell.Session

section Operand

variable {s : Session} (h : s.registry = .builtin) {line operand : String}
  (hline : words line = ["cd", operand]) (hplain : isOption operand = false)

include h hline hplain

/-- A `cd` fails where there is an obstacle, and with that. -/
theorem fails_cd_iff {error : CommandError} :
    s.Fails line error ↔ ∃ kind, (s.tree.resolve s.cwd s.home operand).obstacle? = some kind ∧
      error = ⟨"cd", kind operand⟩ := by
  rw [Fails, h, hline]
  cases hobstacle : (s.tree.resolve s.cwd s.home operand).obstacle? with
  | none =>
      rw [s.environment.result_cd_entered hplain hobstacle]
      constructor
      · intro hok
        cases hok
      · rintro ⟨_, hnone, _⟩
        cases hnone
  | some kind =>
      rw [s.environment.result_cd_refused hplain hobstacle, Except.error.injEq]
      constructor
      · rintro rfl
        exact ⟨kind, rfl, rfl⟩
      · rintro ⟨_, hsome, rfl⟩
        rw [Option.some.inj hsome]

/-- So it succeeds where there is none. -/
theorem forall_not_fails_cd_iff : (∀ error, ¬s.Fails line error) ↔
    (s.tree.resolve s.cwd s.home operand).obstacle? = none := by
  constructor
  · intro hok
    cases hobstacle : (s.tree.resolve s.cwd s.home operand).obstacle? with
    | none => rfl
    | some kind =>
        exact absurd ((fails_cd_iff h hline hplain).2 ⟨kind, hobstacle, rfl⟩) (hok _)
  · intro hfree error herror
    rcases (fails_cd_iff h hline hplain).1 herror with ⟨_, hsome, _⟩
    rw [hfree] at hsome
    cases hsome

/-- Then it goes where the operand leads, and leaves the tree alone. -/
theorem run_cd_entered (hfree : (s.tree.resolve s.cwd s.home operand).obstacle? = none) :
    (s.run line).2.cwd = Path.normalize s.cwd s.home operand ∧ (s.run line).2.tree = s.tree := by
  rw [run_cwd, run_tree, h, Registry.execute, Registry.dispatch_eq, hline,
    s.environment.result_cd_entered hplain hfree]
  exact ⟨rfl, rfl⟩

/-- A second operand names there what both of them name from here. -/
theorem resolve_after_cd (hfree : (s.tree.resolve s.cwd s.home operand).obstacle? = none)
    {b : String} (hempty : (Text.split '/' b).headD "" ≠ "")
    (htilde : (Text.split '/' b).headD "" ≠ "~") :
    (s.run line).2.tree.resolve (s.run line).2.cwd (s.run line).2.home b =
      s.tree.resolve s.cwd s.home (operand ++ "/" ++ b) := by
  rcases run_cd_entered h hline hplain hfree with ⟨hcwd, htree⟩
  rw [htree, hcwd, (s.sameSetting_run line).home, Dir.resolve,
    Path.normalize_normalize hempty htilde, Dir.resolve]

end Operand

/-- A word behind `cd` is its operand. -/
theorem words_cd {operand : String} (h : IsWord operand) :
    words ("cd " ++ operand) = ["cd", operand] := by
  rw [show ("cd " : String) = "cd" ++ " " by decide, words_operand (by decide) h]

/-- Read relative paths one after the other, or both at once with a slash between them: it comes to
    the same path, for any two directories and any texts of which the second begins with neither an
    empty piece nor a tilde. So it comes to the same for `cd`. After a `cd` that succeeds, a second
    one succeeds if the single one does, and then both lead to the same directory; or both fail,
    with the same kind of complaint about what was typed. -/
theorem cd_composes :
    (∀ (cwd home : Path) (a b : String), (Text.split '/' b).headD "" ≠ "" →
      (Text.split '/' b).headD "" ≠ "~" →
        Path.normalize (Path.normalize cwd home a) home b =
          Path.normalize cwd home (a ++ "/" ++ b)) ∧
    ∀ s : Session, s.registry = .builtin → ∀ a b : String, IsWord a → IsWord b →
      isOption a = false → isOption b = false → (Text.split '/' b).headD "" ≠ "" →
      (Text.split '/' b).headD "" ≠ "~" → (∀ error, ¬s.Fails ("cd " ++ a) error) →
        let there := (s.run ("cd " ++ a)).2
        let once := "cd " ++ (a ++ "/" ++ b)
        ((∀ error, ¬there.Fails ("cd " ++ b) error) ∧ (∀ error, ¬s.Fails once error) ∧
          (there.run ("cd " ++ b)).2.cwd = (s.run once).2.cwd) ∨
        ∃ kind : String → Complaint,
          (kind = .absent ∨ kind = .denied ∨ kind = .notDirectory) ∧
          there.Fails ("cd " ++ b) ⟨"cd", kind b⟩ ∧ s.Fails once ⟨"cd", kind (a ++ "/" ++ b)⟩ := by
  refine ⟨fun cwd home a b hempty htilde => Path.normalize_normalize hempty htilde cwd home a, ?_⟩
  intro s h a b ha hb haplain hbplain hempty htilde hok there once
  have hboth : IsWord (a ++ "/" ++ b) := (ha.append (by decide)).append hb
  have hbothplain : isOption (a ++ "/" ++ b) = false := by
    rw [String.append_assoc, isOption_append ha.1]
    exact haplain
  -- The first step has met no obstacle, so it has been taken.
  have hfree := (forall_not_fails_cd_iff h (words_cd ha) haplain).1 hok
  have hregistry : there.registry = .builtin := (s.sameSetting_run ("cd " ++ a)).registry.trans h
  have hfound := resolve_after_cd h (words_cd ha) haplain hfree hempty htilde
  cases hobstacle : (s.tree.resolve s.cwd s.home (a ++ "/" ++ b)).obstacle? with
  | none =>
      have hsecond : (there.tree.resolve there.cwd there.home b).obstacle? = none := by
        rw [hfound, hobstacle]
      refine .inl ⟨(forall_not_fails_cd_iff hregistry (words_cd hb) hbplain).2 hsecond,
        (forall_not_fails_cd_iff h (words_cd hboth) hbothplain).2 hobstacle, ?_⟩
      rw [(run_cd_entered hregistry (words_cd hb) hbplain hsecond).1,
        (run_cd_entered h (words_cd hboth) hbothplain hobstacle).1]
      exact congrArg Resolved.path hfound
  | some kind =>
      have hsecond : (there.tree.resolve there.cwd there.home b).obstacle? = some kind := by
        rw [hfound, hobstacle]
      exact .inr ⟨kind, Resolved.obstacle?_cases hobstacle,
        (fails_cd_iff hregistry (words_cd hb) hbplain).2 ⟨kind, hsecond, rfl⟩,
        (fails_cd_iff h (words_cd hboth) hbothplain).2 ⟨kind, hobstacle, rfl⟩⟩

/-- Out of a directory and into another one, in two steps and in one, and on to a file, at which
    both ways end. -/
theorem cd_composes_beside :
    let s := overTree (demoSetup .empty) (.ofList [("home", .dir (.ofList [("u", .dir (.ofList
      [("docs", .dir .empty), ("pub", .dir (.ofList [("~", .dir .empty)])),
        ("note.md", .file true)]))]))])
    let there := (s.run "cd docs").2
    Path.normalize (Path.normalize s.cwd s.home "../../..") s.home "home/./~" =
        Path.normalize s.cwd s.home "../../../home/./~" ∧
      (there.run "cd ../pub/~").2.cwd = (s.run "cd docs/../pub/~").2.cwd ∧
      (there.run "cd ../pub/~").2.cwd = ⟨["home", "u", "pub", "~"]⟩ ∧
      there.Fails "cd ../note.md" ⟨"cd", .notDirectory "../note.md"⟩ ∧
      s.Fails "cd docs/../note.md" ⟨"cd", .notDirectory "docs/../note.md"⟩ := by
  intro s there
  have hok : ∀ error, ¬s.Fails ("cd " ++ "docs") error := by
    intro error herror
    have hresult : (s.registry.result (words ("cd " ++ "docs")) s.environment).1 = .ok .none := by
      rfl
    rw [Fails, hresult] at herror
    cases herror
  have hsteps := cd_composes.2 s rfl "docs"
  have hfails : there.Fails "cd ../note.md" ⟨"cd", .notDirectory "../note.md"⟩ ∧
      s.Fails "cd docs/../note.md" ⟨"cd", .notDirectory "docs/../note.md"⟩ := by
    rcases hsteps "../note.md" (by decide) (by decide) (by decide) (by decide) (by decide)
      (by decide) hok with ⟨hsecond, _⟩ | ⟨kind, rfl | rfl | rfl, hsecond, honce⟩
    · exact absurd rfl (hsecond ⟨"cd", .notDirectory "../note.md"⟩)
    · cases hsecond
    · cases hsecond
    · exact ⟨hsecond, honce⟩
  refine ⟨cd_composes.1 s.cwd s.home "../../.." "home/./~" (by decide) (by decide), ?_,
    by decide +kernel, hfails⟩
  rcases hsteps "../pub/~" (by decide) (by decide) (by decide) (by decide) (by decide) (by decide)
    hok with ⟨_, _, hcwd⟩ | ⟨kind, _, hsecond, _⟩
  · exact hcwd
  · cases hsecond

end TreeShell.Session
