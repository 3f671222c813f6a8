import TreeShell.Backend.Memory
import TreeShell.Proofs.Command.Ending

/-!
# Which Backend Is Asked

The tree shows the files of two backends as one, and a command that wants the contents of a file has
to know where they are kept. `Path.KeptAt` says where that is, in terms of names only: strictly
below the place where the repository hangs it is the repository, at the names that lead on from
there, and anywhere else it is object storage, under the whole path. Every path is kept at exactly
one place. A neighbour of the repository whose name begins like its name is a different name, and so
it is kept in object storage.

`cat` and `imgcat` ask there. `open` does not: it asks object storage, wherever its file is. So a
link file of the repository is shown in the tree and can be printed, but it is not opened, unless
object storage happens to hold something under the same path.

## Main definitions

* `Path.KeptAt`: Where the contents of a file are kept.
* `FileCommand`: The commands that read files.
* `FileCommand.Suits`: A file that a command does not turn away.
* `FileCommand.asks`: The place a command asks.

## Theorems

* `Path.keptAt_iff`: Every path is kept at one place.
* `FileCommand.keptAt_asks_iff`: When a command asks where its file is kept.
* `FileCommand.traffic_run`: A run makes one request.
* `FileCommand.requests_run`: Which request that is.
* `FileCommand.openLink_bypasses_repository`: A link file that is asked for where it is not kept.
-/

namespace TreeShell

namespace Path

/-- The file at `p` is kept at a place, where the repository hangs at `root`. -/
inductive KeptAt (root p : Path) : Place → Prop where
  /-- Strictly below the repository's root, it is kept in the repository. -/
  | repository {below : List String} (further : below ≠ [])
      (segments : p.segments = root.segments ++ below) :
      KeptAt root p (.repository ("/".intercalate below))
  /-- Anywhere else it is kept in object storage. -/
  | storage (outside : ∀ below, below ≠ [] → p.segments ≠ root.segments ++ below) :
      KeptAt root p (.storage ("/".intercalate p.segments))

/-- Every file is kept at one place. -/
theorem keptAt_iff {root p : Path} {place : Place} :
    root.KeptAt p place ↔ p.place root = place := by
  have hsome : ∀ {below : List String}, below ≠ [] → p.segments = root.segments ++ below →
      p.below? root = some (joined below) := fun hfurther hsegments =>
    below?_eq_some_iff.2 ⟨_, hfurther, hsegments, rfl⟩
  rw [Path.place]
  constructor
  · intro h
    cases h with
    | repository further segments =>
        rw [hsome further segments]
        rfl
    | storage outside =>
        cases hbelow : p.below? root with
        | none => rfl
        | some rest =>
            rcases below?_eq_some_iff.1 hbelow with ⟨below, hfurther, hsegments, _⟩
            exact absurd hsegments (outside below hfurther)
  · rintro rfl
    cases hbelow : p.below? root with
    | none =>
        refine .storage fun below hfurther hsegments => ?_
        rw [hsome hfurther hsegments] at hbelow
        cases hbelow
    | some rest =>
        rcases below?_eq_some_iff.1 hbelow with ⟨below, hfurther, hsegments, rfl⟩
        exact .repository hfurther hsegments

/-- What hangs beside the repository is not in it, even if its name begins in the same way. -/
example : (⟨["home", "u", "repositories", "rust", "a.md"]⟩ : Path).place
    ⟨["home", "u", "repositories", "r"]⟩ = .storage "home/u/repositories/rust/a.md" := by decide

end Path

/-- The commands that read files. -/
inductive FileCommand where
  | cat
  | imgcat
  | openLink
  deriving DecidableEq, Repr

namespace FileCommand

/-- The command itself. -/
def command : FileCommand → Command
  | .cat => .cat
  | .imgcat => .imgcat
  | .openLink => .openLink

/-- The extension of the file at `p` is one that the command takes. -/
def Suits (config : Config) (p : Path) : FileCommand → Prop
  | .cat => True
  | .imgcat => ∃ extension, p.extension? = some extension ∧ extension ∈ config.imageExtensions
  | .openLink => p.extension? = some config.linkExtension

/-- The place that the command asks for the file at `p`. -/
def asks (root p : Path) : FileCommand → Place
  | .cat => p.place root
  | .imgcat => p.place root
  | .openLink => .storage p.storageKey

/-- What it asks for there. -/
def request (place : Place) : FileCommand → Request
  | .cat => .text place
  | .imgcat => .image place
  | .openLink => .text place

/-- A command asks where its file is kept, unless it opens a link file of the repository. -/
theorem keptAt_asks_iff (c : FileCommand) {root p : Path} :
    root.KeptAt p (c.asks root p) ↔
      c ≠ .openLink ∨ ∀ below, below ≠ [] → p.segments ≠ root.segments ++ below := by
  cases c with
  | cat => exact ⟨fun _ => .inl (by decide), fun _ => Path.keptAt_iff.2 rfl⟩
  | imgcat => exact ⟨fun _ => .inl (by decide), fun _ => Path.keptAt_iff.2 rfl⟩
  | openLink =>
      constructor
      · intro h
        rw [asks] at h
        -- In object storage only those files are kept that are not in the repository.
        cases h with
        | storage outside => exact .inr outside
      · rintro (hother | houtside)
        · exact absurd rfl hother
        · exact .storage houtside

section Run

variable {env : Environment} {operand : String} {p : Path} (c : FileCommand)
  (hfound : env.tree.resolve env.cwd env.home operand = ⟨some (.file true), p⟩)
  (hsuits : c.Suits env.config p)

include hfound hsuits

/-- Once the file has been found and is not turned away, one request is made, whatever comes of
    it. -/
theorem traffic_run : ((c.command.run [operand]).outcome env).2.traffic =
    (env.asked (c.request (c.asks env.repoRoot p))).traffic := by
  -- The commands differ in what they make of the answer, and in nothing that was asked.
  cases c with
  | cat =>
      rcases Environment.outcome_cat hfound with ⟨result, _, hrun⟩
      rw [command, hrun]
      rfl
  | imgcat =>
      rcases hsuits with ⟨extension, hsuffix, hshows⟩
      rcases Environment.outcome_imgcat hfound hsuffix hshows with ⟨error, hrun⟩ | ⟨image, hrun⟩
      · rw [command, hrun]
        rfl
      · rw [command, hrun]
        rfl
  | openLink =>
      rcases Environment.outcome_openLink hfound hsuits with ⟨result, _, hrun⟩
      rw [command, hrun]
      rfl

/-- A file command that finds a readable file of a kind it takes makes one request, and asks one
    backend. `cat` and `imgcat` ask where the file is kept: the repository for what lies strictly
    below its root, with the names that lead on from there, and otherwise object storage with the
    whole path. `open` always asks object storage with the whole path, and so it asks where its file
    is kept if and only if that is not in the repository. An operand that is typed behind the
    command's name, and does not look like an option, comes to the same. -/
theorem requests_run : ∃ place,
    ((c.command.run [operand]).outcome env).2.traffic.requests =
        env.traffic.requests ++ [c.request place] ∧
      (c ≠ .openLink → env.repoRoot.KeptAt p place) ∧
      (c = .openLink → place = .storage ("/".intercalate p.segments)) ∧
      (env.repoRoot.KeptAt p place ↔
        c ≠ .openLink ∨ ∀ below, below ≠ [] → p.segments ≠ env.repoRoot.segments ++ below) ∧
      (isOption operand = false → Registry.builtin.result [c.command.name, operand] env =
        (c.command.run [operand]).outcome env) := by
  refine ⟨c.asks env.repoRoot p, ?_, fun hother => ?_, ?_, c.keptAt_asks_iff, fun hplain => ?_⟩
  · rw [traffic_run c hfound hsuits]
    rfl
  · exact c.keptAt_asks_iff.2 (.inl hother)
  · rintro rfl
    rfl
  · cases c with
    | cat => exact Registry.result_operand rfl (by decide) (by decide) hplain env
    | imgcat => exact Registry.result_operand rfl (by decide) (by decide) hplain env
    | openLink => exact Registry.result_operand rfl (by decide) (by decide) hplain env

end Run

/-- A repository that holds an image and a link file, seen from home. -/
def linkedRepository : Environment where
  cwd := .home "u"
  home := .home "u"
  tree :=
    let repo := Dir.ofList
      [("img", .dir (.ofList [("shot.gif", .file true)])), ("site.link", .file true)]
    let home := Dir.ofList [("repositories", .dir (.ofList [("r", .dir repo)]))]
    .ofList [("home", .dir (.ofList [("u", .dir home)]))]
  config := { user := "u", repo := "r" }
  content := ({
    repoTexts := [("site.link", "https://example.com")]
    repoImages := [("img/shot.gif", ⟨"image/gif", [0x47]⟩)] } : MemoryContent).provider
  clock := { seconds := 0 }
  tokens := { letters := fun _ => Fin.last 61 }

/-- An image of the repository is asked for there, however its path is typed. -/
theorem requests_run_image :
    (Registry.builtin.result ["imgcat", "~/repositories/../repositories/r//img/shot.gif"]
      linkedRepository).2.traffic.requests = [.image (.repository "img/shot.gif")] := by
  have hfound : linkedRepository.tree.resolve linkedRepository.cwd linkedRepository.home
      "~/repositories/../repositories/r//img/shot.gif" =
        ⟨some (.file true), ⟨["home", "u", "repositories", "r", "img", "shot.gif"]⟩⟩ := by rfl
  rcases requests_run .imgcat hfound ⟨"gif", by decide, by decide⟩ with
    ⟨place, hrequests, hkept, _, _, htyped⟩
  have hplace := Path.keptAt_iff.1 (hkept (by decide))
  rw [show Registry.builtin.result ["imgcat", _] linkedRepository = _ from htyped (by decide),
    hrequests, ← hplace]
  decide

/-- A link file of the repository is asked for in object storage, where there is none, and not where
    it is kept. `cat` prints it. -/
theorem openLink_bypasses_repository :
    let env := linkedRepository
    let p : Path := ⟨["home", "u", "repositories", "r", "site.link"]⟩
    let opened := (Command.openLink.run ["~/repositories/r/site.link"]).outcome env
    env.tree.resolve env.cwd env.home "~/repositories/r/site.link" = ⟨some (.file true), p⟩ ∧
      FileCommand.openLink.Suits env.config p ∧
      opened.2.traffic.requests = [.text (.storage "home/u/repositories/r/site.link")] ∧
      env.repoRoot.KeptAt p (.repository "site.link") ∧
      (¬∃ place, env.repoRoot.KeptAt p place ∧
        opened.2.traffic.requests = [FileCommand.openLink.request place]) ∧
      (Registry.builtin.execute "open ~/repositories/r/site.link" env).1 =
        .text "open: An error has occurred" ∧
      (Registry.builtin.execute "cat ~/repositories/r/site.link" env).1 =
        .text "https://example.com" := by
  intro env p opened
  have hkept : env.repoRoot.KeptAt p (.repository "site.link") := Path.keptAt_iff.2 (by decide)
  have hasked : opened.2.traffic.requests =
      [.text (.storage "home/u/repositories/r/site.link")] := by decide
  have hsuits : p.extension? = some env.config.linkExtension := by decide
  refine ⟨rfl, hsuits, hasked, hkept, ?_, by decide, by decide⟩
  rintro ⟨place, hplace, hrequest⟩
  have hsame : Place.repository "site.link" = place :=
    (Path.keptAt_iff.1 hkept).symm.trans (Path.keptAt_iff.1 hplace)
  rw [hasked, ← hsame] at hrequest
  exact absurd hrequest (by decide)

end FileCommand

end TreeShell
