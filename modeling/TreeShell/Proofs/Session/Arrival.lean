import TreeShell.Proofs.Session.Fetch
import TreeShell.Proofs.Session.Stepwise
import TreeShell.Proofs.Session.WorkingDirectory

/-!
# Following a Hint

A boot enters the directory that its hint names. For anything else it writes a line and runs it, and
there what was found goes through text once more: it is printed into the line, the line is cut into
words, and the operand is read again from where the boot has landed. The user is to see what the
hint names, and whether they do depends on whether the text comes back.

A path printed in full comes back if the line keeps it in one piece. It begins with a slash, so it
is neither an option nor relative. A file that is shown has only its name in the line, and this has
to survive more: a dash in front makes it an option, and a tilde alone is home. Spaces around a name
are no help, since what is left without them is another name; only if what is left is a tilde can it
be right, for a file that stands where home should be. So `boot_reaches_hint` can say of every hint
whether the line reaches what the hint names. Where it does, the user sees that. Otherwise they see
a complaint about something else (`boot_loses_dashed_name`).

## Main definitions

* `Reads`: Text behind a command that is one operand, and names a path.
* `Resolved.Typable`: What a boot can put into a line and get back.
* `Session.target`: What a hint names.
* `Session.Addresses`: A line that names with its operand what was found.
* `Session.Serves`: A line that asks for what was found, or says why it cannot.
* `Session.Arrives`: A session that has landed and is about to run its line.

## Theorems

* `reads_text_iff`, `reads_name_iff`: Which paths come back in full, and which by their name.
* `Session.requests_viewer`, `Session.fails_viewer`: What the command for a file does with it.
* `Session.Arrives.addresses_iff`: What the line addresses.
* `Session.Arrives.serves`: What it then does.
* `Session.boot_reaches_hint`: All of this for a boot.
* `Session.boot_loses_dashed_name`: A readable file that a boot does not show.
-/

namespace TreeShell

/-- Behind a command, `text` is a single operand, and it names `path` from `cwd`. -/
def Reads (cwd home : Path) (text : String) (path : Path) : Prop :=
  ∃ operand, words text = [operand] ∧ isOption operand = false ∧
    Path.normalize cwd home operand = path

/-- A printed path that comes back was one word: what is read begins with a slash as well, so it
    holds all letters of the path, and there is no space among them. -/
theorem isWord_text_of_words {path cwd home : Path} {w : String} (h : words path.text = [w])
    (hpath : Path.normalize cwd home w = path) : IsWord path.text := by
  have hword : IsWord w := isWord_of_mem_words (h ▸ List.mem_singleton_self w)
  have hfirst := path.head?_text
  -- The slash in front is no space, so it is the first letter of the word as well.
  have hslash : w.toList.head? = some '/' := by
    rw [toList_of_words_eq_singleton h]
    cases htext : path.text.toList with
    | nil =>
        rw [htext] at hfirst
        cases hfirst
    | cons c cs =>
        rw [htext] at hfirst
        obtain rfl : c = '/' := Option.some.inj hfirst
        rw [List.filter_cons_of_pos (by decide), List.head?_cons]
  -- Any other letter stands in a name, and each name was typed.
  have hletters : ∀ c, c ≠ '/' → c ∉ w.toList → c ∉ path.text.toList := by
    intro c hc hout hmem
    rcases (Path.mem_text_iff hc path).1 hmem with ⟨name, hname, hin⟩
    rw [← hpath] at hname
    exact hout (Text.mem_of_mem_split (Path.mem_split_of_mem_normalize hslash hname) hin)
  have hne : path.text ≠ "" := by
    intro hempty
    rw [hempty] at hfirst
    cases hfirst
  exact ⟨hne, hletters _ (by decide) hword.2.1, hletters _ (by decide) hword.2.2⟩

/-- A path that was printed in full comes back exactly if it is one word. -/
theorem reads_text_iff {path : Path} (h : path.Ordinary) (cwd home : Path) :
    Reads cwd home path.text path ↔ IsWord path.text := by
  constructor
  · rintro ⟨w, hwords, _, hpath⟩
    exact isWord_text_of_words hwords hpath
  · intro hword
    exact ⟨path.text, words_eq_self_iff.2 hword, isOption_text path, Path.normalize_text h cwd home⟩

/-- The name of an entry comes back to it exactly if it is one word, and neither an option nor a
    tilde; or it is a tilde with spaces around it, and the entry is home. -/
theorem reads_name_iff {dir home : Path} (hdir : dir.Ordinary) (hhome : home.Ordinary)
    {name : String} (hname : Path.OrdinaryName name) :
    Reads dir home name (dir.child name) ↔
      IsWord name ∧ isOption name = false ∧ name ≠ "~" ∨
        dir.child name = home ∧ words name = ["~"] := by
  constructor
  · rintro ⟨w, hwords, hplain, hpath⟩
    have hword : IsWord w := isWord_of_mem_words (hwords ▸ List.mem_singleton_self w)
    -- Cutting adds no letters, so there is no way out of the directory but the tilde.
    have hslash : '/' ∉ w.toList := by
      rw [toList_of_words_eq_singleton hwords]
      exact fun hc => hname.2.1 (List.mem_filter.1 hc).1
    rcases Path.eq_of_normalize_eq_child hdir.settled hhome.settled hslash hword.1 hpath with
      ⟨rfl, htilde⟩ | ⟨rfl, hsame⟩
    · exact .inl ⟨hword, hplain, htilde⟩
    · exact .inr ⟨hsame, hwords⟩
  · rintro (⟨hword, hplain, htilde⟩ | ⟨hsame, hwords⟩)
    · exact ⟨name, words_eq_self_iff.2 hword, hplain,
        Path.normalize_child hdir.settled hname htilde⟩
    · exact ⟨"~", hwords, by decide, (Path.normalize_tilde hhome dir).trans hsame.symm⟩

/-- What was found can be put into the line of a boot and is got back: a file that is shown by its
    name, and anything else by its path. A readable directory needs no line. -/
def Resolved.Typable (home : Path) (found : Resolved) : Prop :=
  match found.node with
  | some (.dir _) => True
  | some (.file true) =>
    let name := found.path.name?.getD ""
    IsWord name ∧ isOption name = false ∧ name ≠ "~" ∨ found.path = home ∧ words name = ["~"]
  | _ => IsWord found.path.text

namespace Session

/-- What a hint names from home in the stored tree; home, if it is empty. -/
def target (s : Session) (hint : String) : Resolved :=
  s.storedTree.resolve s.home s.home (if hint = "" then s.home.text else hint)

/-- The line is a command with one operand, and the operand names what was found. -/
def Addresses (s : Session) (line : String) (found : Resolved) : Prop :=
  ∃ command operand, words line = [command, operand] ∧ isOption operand = false ∧
    s.tree.resolve s.cwd s.home operand = found

/-- The request for the contents of the file at a path, by the command that shows it. -/
def contents (s : Session) (path : Path) : Request :=
  if path.extension?.any s.config.isImage then .image (path.place s.environment.repoRoot)
  else .text (path.place s.environment.repoRoot)

/-- The line does what can be done about what was found: a readable file is asked for, and anything
    else complained about by its path. -/
structure Serves (s : Session) (line : String) (found : Resolved) : Prop where
  shown : found.node = some (.file true) →
    (s.run line).2.traffic.requests = s.traffic.requests ++ [s.contents found.path]
  closed : found.node = some (.file false) → (s.run line).1 = .text
    (viewer s.config (found.path.name?.getD "") ++ ": " ++ found.path.text ++
      ": Permission denied")
  denied : found.node = some .denied →
    (s.run line).1 = .text ("cd: " ++ found.path.text ++ ": Permission denied")
  absent : found.node = none →
    (s.run line).1 = .text ("cd: " ++ found.path.text ++ ": No such file or directory")

section Text

variable {s : Session} {command : String} (h : IsWord command)

include h

/-- A line that was put together from a command and a text addresses what the text reads as. -/
theorem addresses_line_iff {path : Path} {node : Option Node}
    (hnode : s.tree.follow path.segments = node) (text : String) :
    s.Addresses (command ++ " " ++ text) ⟨node, path⟩ ↔ Reads s.cwd s.home text path := by
  rw [Addresses, words_cons (words_eq_self_iff.2 h)]
  constructor
  · rintro ⟨_, operand, hwords, hplain, hfound⟩
    exact ⟨operand, (List.cons.inj hwords).2, hplain, congrArg Resolved.path hfound⟩
  · rintro ⟨operand, hwords, hplain, rfl⟩
    exact ⟨command, operand, by rw [hwords], hplain, by rw [Dir.resolve, hnode]⟩

/-- With a path in full, it addresses what is there exactly if the path is one word. -/
theorem addresses_text_iff {path : Path} (hpath : path.Ordinary) {node : Option Node}
    (hnode : s.tree.follow path.segments = node) :
    s.Addresses (command ++ " " ++ path.text) ⟨node, path⟩ ↔ IsWord path.text := by
  rw [addresses_line_iff h hnode, reads_text_iff hpath]

end Text

/-- The command that shows a file depends on the file's extension. -/
theorem viewer_name (config : Config) (path : Path) :
    viewer config (path.name?.getD "") =
      if path.extension?.any config.isImage then "imgcat" else "cat" := by
  rw [viewer, Path.extension?]
  cases path.name? with
  | none => rfl
  | some name => rfl

theorem isWord_viewer (config : Config) (name : String) : IsWord (viewer config name) := by
  rw [viewer]
  split
  · decide
  · decide

section Line

variable {s : Session} (h : s.registry = .builtin) {line operand : String} {path : Path}
  (hline : words line = [viewer s.config (path.name?.getD ""), operand])
  (hplain : isOption operand = false)

include h hline hplain

/-- With the operand of a readable file, that command asks for its contents. -/
theorem requests_viewer
    (hfound : s.tree.resolve s.cwd s.home operand = ⟨some (.file true), path⟩) :
    (s.run line).2.traffic.requests = s.traffic.requests ++ [s.contents path] := by
  have hnames : s.environment.Readable operand path := ⟨hplain, hfound⟩
  rw [viewer_name] at hline
  rw [contents]
  split at hline
  · rename_i himage
    obtain ⟨extension, hsuffix, hshows⟩ := (Option.any_eq_true _ _).1 himage
    rw [if_pos himage]
    exact requests_of_fetches h
      (.image operand extension hline hnames hsuffix (List.contains_iff_mem.1 hshows) rfl)
  · rename_i himage
    rw [if_neg himage]
    exact requests_of_fetches h (.text operand hline hnames rfl)

/-- With that of a file that may not be read, it complains. -/
theorem fails_viewer
    (hfound : s.tree.resolve s.cwd s.home operand = ⟨some (.file false), path⟩) :
    s.Fails line ⟨viewer s.config (path.name?.getD ""), .denied operand⟩ := by
  have hdenied : ∀ command, (Command.readable command operand false).outcome s.environment =
      (.error ⟨command, .denied operand⟩, s.environment) :=
    Command.outcome_readable_denied hfound
  rw [Fails, h, hline, viewer]
  split
  · rw [Registry.result_operand (c := .imgcat) rfl (Nat.le_refl _) (Nat.le_refl _) hplain]
    simp only [Command.imgcat, CommandM.outcome_bind, List.headD_cons, hdenied]
  · rw [Registry.result_operand (c := .cat) rfl (Nat.le_refl _) (Nat.le_refl _) hplain]
    simp only [Command.cat, CommandM.outcome_bind, List.headD_cons, hdenied]

end Line

/-- The session has landed on its way to what was found, and is about to run the line for it. -/
structure Arrives (s : Session) (found : Resolved) (line : String) : Prop where
  registry : s.registry = .builtin
  home : s.home.Ordinary
  path : found.path.Ordinary
  follow : s.tree.follow found.path.segments = found.node
  cwd : s.cwd = (arrival s.config s.home found).1
  line : (arrival s.config s.home found).2 = some line

namespace Arrives

variable {s : Session} {line : String}

/-- The line addresses what was found exactly if that can be typed. -/
theorem addresses_iff {found : Resolved} (h : s.Arrives found line) :
    s.Addresses line found ↔ found.Typable s.home := by
  rcases h with ⟨_, hhome, hpath, hfollow, hcwd, hline⟩
  -- Nothing there, a directory, a denied one, and a file that may not be read or may.
  rcases found with ⟨_ | entries | _ | _ | _, path⟩
  · rw [← Option.some.inj hline]
    exact addresses_text_iff (show IsWord "cd" by decide) hpath hfollow
  · cases hline
  · rw [← Option.some.inj hline]
    exact addresses_text_iff (show IsWord "cd" by decide) hpath hfollow
  · rw [← Option.some.inj hline]
    exact addresses_text_iff (isWord_viewer _ _) hpath hfollow
  · -- A file that is shown is named from its own directory, where the session is.
    rcases Path.exists_eq_child (Dir.ne_nil_of_follow_file hfollow) with ⟨dir, name, rfl⟩
    have hdir : dir.Ordinary := fun s hs => hpath s (List.mem_append_left _ hs)
    have hname : Path.OrdinaryName name :=
      hpath name (List.mem_append_right _ (List.mem_singleton_self _))
    simp only [arrival, Path.name?_child, Path.parent_child, Option.getD_some] at hline hcwd
    rw [← Option.some.inj hline, addresses_line_iff (isWord_viewer _ _) hfollow, hcwd,
      reads_name_iff hdir hhome hname, Resolved.Typable]
    simp only [Path.name?_child, Option.getD_some]

/-- The path in full names what was found. -/
theorem resolve_text {found : Resolved} (h : s.Arrives found line) :
    s.tree.resolve s.cwd s.home found.path.text = found := by
  rw [Dir.resolve, Path.normalize_text h.path, h.follow]

/-- What cannot be entered is complained about by its path. -/
theorem output_cd {found : Resolved} (h : s.Arrives found line)
    (hline : "cd " ++ found.path.text = line) (hword : IsWord found.path.text)
    (kind : String → Complaint) (hobstacle : found.obstacle? = some kind) :
    (s.run line).1 = .text (CommandError.message ⟨"cd", kind found.path.text⟩) := by
  have hfails : s.Fails line ⟨"cd", kind found.path.text⟩ := by
    rw [← hline]
    exact (fails_cd_iff h.registry (words_cd hword) (isOption_text _)).2
      ⟨kind, by rw [h.resolve_text, hobstacle], rfl⟩
  exact hfails.output

/-- So is a file that may not be read. -/
theorem output_viewer {path : Path} (h : s.Arrives ⟨some (.file false), path⟩ line)
    (hword : IsWord path.text) : (s.run line).1 = .text
      (CommandError.message ⟨viewer s.config (path.name?.getD ""), .denied path.text⟩) := by
  have hfails : s.Fails line ⟨viewer s.config (path.name?.getD ""), .denied path.text⟩ := by
    rw [← Option.some.inj h.line]
    exact fails_viewer h.registry (words_operand (isWord_viewer _ _) hword) (isOption_text path)
      h.resolve_text
  exact hfails.output

/-- And one that may be read is asked for, if the line addresses it. -/
theorem requests_shown {path : Path} (h : s.Arrives ⟨some (.file true), path⟩ line)
    (haddresses : s.Addresses line ⟨some (.file true), path⟩) :
    (s.run line).2.traffic.requests = s.traffic.requests ++ [s.contents path] := by
  rcases haddresses with ⟨command, operand, hwords, hplain, hfound⟩
  have hviewer : words line =
      viewer s.config (path.name?.getD "") :: words (path.name?.getD "") := by
    rw [← Option.some.inj h.line]
    exact words_cons (words_eq_self_iff.2 (isWord_viewer _ _)) _
  rw [hviewer, List.cons.injEq] at hwords
  rw [hwords.2] at hviewer
  exact requests_viewer h.registry hviewer hplain hfound

/-- So a line for something that can be typed does what can be done about it. -/
theorem serves {found : Resolved} (h : s.Arrives found line) (htypable : found.Typable s.home) :
    s.Serves line found := by
  rcases found with ⟨_ | entries | _ | _ | _, path⟩
  · refine ⟨nofun, nofun, nofun, fun _ => ?_⟩
    exact h.output_cd (Option.some.inj h.line) htypable .absent rfl
  · cases h.line
  · refine ⟨nofun, nofun, fun _ => ?_, nofun⟩
    exact h.output_cd (Option.some.inj h.line) htypable .denied rfl
  · refine ⟨nofun, fun _ => ?_, nofun, nofun⟩
    rw [h.output_viewer htypable, CommandError.message, Complaint.text, ← String.append_assoc]
  · exact ⟨fun _ => h.requests_shown (h.addresses_iff.2 htypable), nofun, nofun, nofun⟩

end Arrives

/-- A boot that runs a line has landed on the way to what its hint names. -/
theorem arrives_landed {s : Session} (h : s.Seated) (huser : Path.OrdinaryName s.config.user)
    {hint line : String} (hline : (s.landing hint).2 = some line) :
    (s.landed hint).Arrives (s.target hint) line := by
  have hhome : s.home.Ordinary := h.ordinary_home huser
  have hsetting := s.sameSetting_landed hint
  refine ⟨hsetting.registry.trans h.registry, ?_,
    Path.normalize_ordinary hhome.slash_notMem hhome.slash_notMem _, ?_, ?_, ?_⟩
  · rw [hsetting.home]
    exact hhome
  · have htree : (s.landed hint).tree = s.storedTree := by rw [landed]
    rw [htree, target, Dir.resolve]
  · rw [hsetting.home, hsetting.config, cwd_landed, landing, target]
  · rw [hsetting.home, hsetting.config, ← hline, landing, target]

/-- A boot follows its hint from home in the stored tree. A readable directory is entered, without a
    line. For anything else exactly one line is run, and it addresses what the hint names if and
    only if that can be typed: a readable file by its name, which must be one word, no option and no
    tilde, and whatever is refused by its path in full. Then the file is asked for, and the refusal
    is of what the hint names. -/
theorem boot_reaches_hint {s : Session} (h : s.Seated)
    (huser : Path.OrdinaryName s.config.user) (hint : String) :
    let found := s.target hint
    (hint = "" → found.path = s.home) ∧
    (∀ entries, found.node = some (.dir entries) →
      s.ran (.boot hint) = [] ∧ s.boot hint = s.landed hint ∧ (s.boot hint).cwd = found.path) ∧
    ((∀ entries, found.node ≠ some (.dir entries)) → ∃ line,
      s.ran (.boot hint) = [(s.landed hint, line)] ∧
        s.boot hint = ((s.landed hint).run line).2 ∧
        ((s.landed hint).Addresses line found ↔ found.Typable s.home) ∧
        (found.Typable s.home → (s.landed hint).Serves line found)) := by
  intro found
  have hlanding : s.landing hint = arrival s.config s.home found := rfl
  refine ⟨?_, ?_, ?_⟩
  · rintro rfl
    exact Path.normalize_text (h.ordinary_home huser) s.home s.home
  · intro entries hnode
    have hdir : s.landing hint = (found.path, none) := by
      rw [hlanding, arrival, hnode]
    have hboot : s.boot hint = s.landed hint := boot_of_none (by rw [hdir])
    refine ⟨by rw [ran, hdir]; rfl, hboot, ?_⟩
    rw [hboot, cwd_landed, hdir]
  · intro hother
    -- Every other landing comes with a line.
    obtain ⟨line, hline⟩ : ∃ line, (s.landing hint).2 = some line := by
      rw [hlanding, arrival]
      split
      · rename_i entries hnode
        exact absurd hnode (hother entries)
      · exact ⟨_, rfl⟩
      · exact ⟨_, rfl⟩
      · exact ⟨_, rfl⟩
      · exact ⟨_, rfl⟩
    have harrives := arrives_landed h huser hline
    have hhome : (s.landed hint).home = s.home := (s.sameSetting_landed hint).home
    refine ⟨line, by rw [ran, hline]; rfl, boot_of_some hline, ?_⟩
    rw [← hhome]
    exact ⟨harrives.addresses_iff, harrives.serves⟩

/-- A session over a stored tree. -/
def stored (tree : Dir) : Session :=
  start { demoSetup .empty with store := { held := .text tree.snapshot } }

/-- The stored tree is loaded, if it can be stored. -/
theorem storedTree_stored {tree : Dir} (h : tree.Storable) : (stored tree).storedTree = tree :=
  (storedTree_of_held (s := stored tree) rfl rfl).trans ((getD_read_snapshot_iff tree _).2 h)

/-- A note that is shown, and a place below a denied directory. -/
theorem boot_reaches_hint_note :
    let s := stored (.ofList [("home", .dir (.ofList [("u", .dir (.ofList
      [("note.md", .file true), ("keys", .denied)]))]))])
    (s.boot "~/keys/..//note.md").traffic.requests = [.text (.storage "home/u/note.md")] ∧
      (s.boot "keys/old").outputs =
        [.text banner, .text "cd: /home/u/keys/old: Permission denied"] := by
  intro s
  have hseated : s.Seated := ⟨rfl, rfl⟩
  have huser : Path.OrdinaryName s.config.user := by decide
  have htree : s.storedTree = .ofList [("home", .dir (.ofList [("u", .dir (.ofList
      [("note.md", .file true), ("keys", .denied)]))]))] :=
    storedTree_stored (by decide +kernel)
  have hnote : s.target "~/keys/..//note.md" =
      ⟨some (.file true), ⟨["home", "u", "note.md"]⟩⟩ := by
    rw [target, htree, if_neg (by decide)]
    rfl
  have hold : s.target "keys/old" = ⟨some .denied, ⟨["home", "u", "keys", "old"]⟩⟩ := by
    rw [target, htree, if_neg (by decide)]
    rfl
  constructor
  · rcases (boot_reaches_hint hseated huser "~/keys/..//note.md").2.2 (by rw [hnote]; nofun) with
      ⟨line, _, hboot, _, hserves⟩
    rw [hnote] at hserves
    rw [hboot, (hserves (.inl ⟨by decide, by decide, by decide⟩)).shown rfl]
    rfl
  · rcases (boot_reaches_hint hseated huser "keys/old").2.2 (by rw [hold]; nofun) with
      ⟨line, _, hboot, _, hserves⟩
    rw [hold] at hserves
    have hword : IsWord (Path.text ⟨["home", "u", "keys", "old"]⟩) := by decide
    rw [hboot, ((s.landed "keys/old").run_recorded line).2, (hserves hword).denied rfl]
    rfl

/-- A readable file whose name begins with a dash is not shown. It is named from its own directory,
    and there the line that the boot runs for it is turned away. -/
theorem boot_loses_dashed_name :
    let s := stored (.ofList [("home", .dir (.ofList [("u", .dir (.ofList
      [("-draft.md", .file true)]))]))])
    s.Seated ∧ Path.OrdinaryName s.config.user ∧
      s.target "~/-draft.md" = ⟨some (.file true), ⟨["home", "u", "-draft.md"]⟩⟩ ∧
      s.ran (.boot "~/-draft.md") = [(s.landed "~/-draft.md", "cat -draft.md")] ∧
      ¬(s.landed "~/-draft.md").Addresses "cat -draft.md" (s.target "~/-draft.md") ∧
      (s.boot "~/-draft.md").outputs = [.text banner, .text "cat: -draft.md: invalid option"] ∧
      (s.boot "~/-draft.md").traffic.requests = [] := by
  intro s
  have htree : s.storedTree = .ofList [("home", .dir (.ofList [("u", .dir (.ofList
      [("-draft.md", .file true)]))]))] :=
    storedTree_stored (by decide +kernel)
  have htarget : s.target "~/-draft.md" =
      ⟨some (.file true), ⟨["home", "u", "-draft.md"]⟩⟩ := by
    rw [target, htree, if_neg (by decide)]
    rfl
  have hlanding : s.landing "~/-draft.md" = (.home "u", some "cat -draft.md") := by
    change arrival s.config s.home (s.target "~/-draft.md") = _
    rw [htarget]
    rfl
  have hwords : words "cat -draft.md" = ["cat", "-draft.md"] := by decide
  have hturned : ∀ t : Session, t.registry = .builtin →
      t.registry.execute "cat -draft.md" t.environment =
        (.text "cat: -draft.md: invalid option", t.environment) := by
    intro t ht
    rw [ht, Registry.execute, hwords]
    rfl
  have hboot : s.boot "~/-draft.md" = ((s.landed "~/-draft.md").run "cat -draft.md").2 :=
    boot_of_some (by rw [hlanding])
  rw [(s.landed _).run_of_text _ (hturned _ rfl)] at hboot
  refine ⟨⟨rfl, rfl⟩, by decide, htarget, ?_, ?_, ?_, ?_⟩
  · rw [ran, hlanding]
    rfl
  · -- The operand is taken for an option.
    rintro ⟨_, operand, hline, hplain, _⟩
    rw [hwords, List.cons.injEq, List.cons.injEq] at hline
    rw [← hline.2.1] at hplain
    exact absurd hplain (by decide)
  · rw [hboot]
    rfl
  · rw [hboot]
    rfl

end Session

end TreeShell
