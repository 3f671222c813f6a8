import TreeShell.Proofs.Command.Directory
import TreeShell.Proofs.Session.Failure
import TreeShell.Proofs.Session.Restart

/-!
# Where a Session Stands

The working directory is set in four ways: a boot goes home, or where its hint leads, or to the
directory around the file that the hint names, and `cd` enters what it has found. It is then used in
its printed form, which is read back. Two things have to hold for that to work. Its names have to be
such that they can be typed, and something has to be there.

The first holds at all times, whatever was typed (`ordinary_after`). It depends on nothing but the
user's name, since everything else is cleaned when it is read.

The second cannot hold at all times. A rebuild replaces the tree from under the session, and it does
not look where the session stands. So it is a property of the time since the directory was set
(`placed_after`): it is a readable directory of the tree as long as no rebuild has put another tree
in place. Home is excepted, since one gets there without looking.

## Main definitions

* `Session.Moves`: A line is a `cd` that succeeds.
* `Session.Replaces`: A line is a rebuild that puts another tree in place.
* `Session.Placed`: The session is at home or in a readable directory.
* `Session.Settles`: A run after which the working directory has just been set.

## Theorems

* `Session.enters_of_moves`, `Session.run_cwd_of_not_moves`, `Session.moves_of_cwd_ne`: Only a boot
  and a `cd` that succeeds move.
* `Session.ordinary_act`, `Session.ordinary_after`: The working directory can always be typed.
* `Session.placed_boot`, `Session.placed_act`, `Session.placed_after`: It is there until the tree is
  replaced.
* `Session.workingDirectory_invariant`: All of this, for any session that can come about.
-/

namespace TreeShell.Session

/-- The line is a `cd`, and it does not fail. -/
def Moves (s : Session) (line : String) : Prop :=
  (words line).head? = some "cd" ∧ ∀ error, ¬s.Fails line error

/-- The line is a rebuild, and it puts another tree in place. -/
def Replaces (s : Session) (line : String) : Prop :=
  words line = ["taso-cli", "reset"] ∧ (s.run line).2.tree ≠ s.tree

/-- The session is at home, or in a readable directory of its tree. -/
def Placed (s : Session) : Prop :=
  s.cwd = s.home ∨ ∃ entries, s.tree.dirAt? s.cwd.segments = some entries

/-- The working directory has just been set: the run ends with a boot or with a `cd` that succeeds,
    or nothing has happened yet. -/
inductive Settles (s : Session) : List Action → Prop where
  | start : s.Settles []
  | boot (earlier : List Action) (hint : String) : s.Settles (earlier ++ [.boot hint])
  | moved (earlier : List Action) {line : String} (moves : (s.after earlier).Moves line) :
      s.Settles (earlier ++ [.line line])

theorem after_append (s : Session) (earlier later : List Action) :
    s.after (earlier ++ later) = (s.after earlier).after later := List.foldl_append

theorem after_concat (s : Session) (earlier : List Action) (action : Action) :
    s.after (earlier ++ [action]) = (s.after earlier).act action := List.foldl_append

/-- At home or where an operand leads, one stands in a readable directory. -/
theorem placed_of_enters {s s' : Session} (h : s.environment.Enters s'.cwd)
    (hhome : s'.home = s.home) (htree : s'.tree = s.tree) : s'.Placed := by
  unfold Placed
  rw [hhome, htree]
  generalize s'.cwd = cwd at h
  cases h with
  | home => exact .inl rfl
  | typed operand found => exact .inr ⟨_, found⟩

section Line

variable {s : Session} (h : s.registry = .builtin) {line : String}

include h

/-- A `cd` that succeeds enters a directory, and leaves the tree alone. -/
theorem enters_of_moves (hmoves : s.Moves line) :
    s.environment.Enters (s.run line).2.cwd ∧ (s.run line).2.tree = s.tree := by
  rcases hmoves with ⟨hname, hok⟩
  rw [run_cwd, run_tree, h, Registry.execute, Registry.dispatch_eq]
  rcases s.environment.result_cd hname with ⟨e, hresult⟩ | ⟨cwd, henters, hresult⟩
  · refine absurd ?_ (hok e)
    rw [Fails, h, hresult]
  · rw [hresult]
    exact ⟨henters, rfl⟩

/-- No other line moves: either it names another command, or it is a `cd` that fails. -/
theorem run_cwd_of_not_moves (hmoves : ¬s.Moves line) : (s.run line).2.cwd = s.cwd := by
  rw [run_cwd, h, Registry.execute, Registry.dispatch_eq]
  by_cases hname : (words line).head? = some "cd"
  · rcases s.environment.result_cd hname with ⟨e, hresult⟩ | ⟨cwd, _, hresult⟩
    · rw [hresult]
      rfl
    · -- Then it would have succeeded.
      refine absurd ⟨hname, fun error herror => ?_⟩ hmoves
      rw [Fails, h, hresult] at herror
      cases herror
  · have hcwd : s.environment.cwd = s.cwd := by rw [environment]
    rw [s.environment.cwd_result hname, hcwd]

/-- A line that is no rebuild, or one that leaves the tree as it is, keeps the session in place. -/
theorem placed_run (hplaced : s.Placed) (hkept : ¬s.Replaces line) : (s.run line).2.Placed := by
  have hhome : (s.run line).2.home = s.home := (s.sameSetting_run line).home
  by_cases hmoves : s.Moves line
  · rcases enters_of_moves h hmoves with ⟨henters, htree⟩
    exact placed_of_enters henters hhome htree
  · -- The session stays where it is, so what matters is that the tree stays as well.
    have htree : (s.run line).2.tree = s.tree := by
      by_cases hreset : words line = ["taso-cli", "reset"]
      · exact Decidable.of_not_not fun hother => hkept ⟨hreset, hother⟩
      · exact run_tree_of_ne h hreset
    unfold Placed
    rw [run_cwd_of_not_moves h hmoves, hhome, htree]
    exact hplaced

/-- A `cd` that succeeds puts the session in place, wherever it was before. -/
theorem placed_of_moves (hmoves : s.Moves line) : (s.run line).2.Placed := by
  rcases enters_of_moves h hmoves with ⟨henters, htree⟩
  exact placed_of_enters henters (s.sameSetting_run line).home htree

end Line

/-- A path that names a file has a last name, and the file stands in the directory before it. -/
theorem placed_parent {root : Dir} {path : Path} {mark : Bool}
    (h : root.follow path.segments = some (.file mark)) :
    ∃ entries, root.dirAt? path.parent.segments = some entries := by
  rcases Path.exists_eq_child (Dir.ne_nil_of_follow_file h) with ⟨dir, name, rfl⟩
  rw [Path.parent_child]
  exact Dir.exists_dirAt?_of_follow h nofun

theorem cwd_landed (s : Session) (hint : String) : (s.landed hint).cwd = (s.landing hint).1 := by
  rw [landed]

/-- Where a boot leads can be typed, if home can. -/
theorem ordinary_landing {s : Session} (hhome : s.home.Ordinary) (hint : String) :
    (s.landing hint).1.Ordinary := by
  have hfound : ∀ input, (s.storedTree.resolve s.home s.home input).path.Ordinary := fun input =>
    Path.normalize_ordinary hhome.slash_notMem hhome.slash_notMem input
  rw [landing]
  generalize (if hint = "" then s.home.text else hint) = input
  specialize hfound input
  generalize s.storedTree.resolve s.home s.home input = found at hfound
  rcases found with ⟨_ | entries | _ | _ | _, path⟩
  · exact hhome
  · exact hfound
  · exact hhome
  · exact hhome
  · -- The directory around the file: its names are among those of the file's path.
    exact fun name hname => hfound name (List.dropLast_subset _ hname)

/-- A boot lands at home or in a readable directory of the stored tree. -/
theorem placed_landed (s : Session) (hint : String) : (s.landed hint).Placed := by
  unfold Placed landed landing
  generalize (if hint = "" then s.home.text else hint) = input
  have hfollow : s.storedTree.follow (s.storedTree.resolve s.home s.home input).path.segments =
      (s.storedTree.resolve s.home s.home input).node := rfl
  generalize s.storedTree.resolve s.home s.home input = found at hfollow ⊢
  rcases found with ⟨_ | entries | _ | _ | _, path⟩
  · exact .inl rfl
  · exact .inr ⟨entries, Dir.dirAt?_eq_some_iff.2 hfollow⟩
  · exact .inl rfl
  · exact .inl rfl
  · exact .inr (placed_parent hfollow)

/-- The line that a boot may run is no rebuild. -/
theorem not_replaces_landing {s : Session} {hint line : String}
    (h : (s.landing hint).2 = some line) (t : Session) : ¬t.Replaces line := by
  rintro ⟨hreset, _⟩
  rcases landing_line h with ⟨command, rest, hwords, hmem⟩
  rw [hreset] at hwords
  rw [← (List.cons.inj hwords).1] at hmem
  exact absurd hmem (by decide)

/-- A boot puts the session in place, wherever it was before and whatever it was told. -/
theorem placed_boot {s : Session} (h : s.registry = .builtin) (hint : String) :
    (s.boot hint).Placed := by
  cases hline : (s.landing hint).2 with
  | none =>
      rw [boot_of_none hline]
      exact s.placed_landed hint
  | some line =>
      -- The line shows what the hint names, from where the session has landed.
      rw [boot_of_some hline]
      have hregistry : (s.landed hint).registry = .builtin :=
        (s.sameSetting_landed hint).registry.trans h
      exact placed_run hregistry (s.placed_landed hint) (not_replaces_landing hline _)

/-- An action that changes the working directory is a boot, or a `cd` that succeeds. -/
theorem moves_of_cwd_ne {s : Session} (h : s.registry = .builtin) {action : Action}
    (hchanged : (s.act action).cwd ≠ s.cwd) :
    (∃ hint, action = .boot hint) ∨ ∃ line, action = .line line ∧ s.Moves line := by
  cases action with
  | boot hint => exact .inl ⟨hint, rfl⟩
  | line text =>
      by_cases hmoves : s.Moves text
      · exact .inr ⟨text, rfl, hmoves⟩
      · rw [act, run_cwd_of_not_moves h hmoves] at hchanged
        exact absurd rfl hchanged
  | hide => exact absurd rfl hchanged
  | outside w => exact absurd rfl hchanged

/-- Every action keeps the session in place, unless it runs a line that replaces the tree. -/
theorem placed_act {s : Session} (h : s.registry = .builtin) (hplaced : s.Placed) (action : Action)
    (hkept : ∀ t line, (t, line) ∈ s.ran action → ¬t.Replaces line) : (s.act action).Placed := by
  cases action with
  | boot hint => exact placed_boot h hint
  | line text => exact placed_run h hplaced (hkept s text List.mem_cons_self)
  | hide => exact hplaced
  | outside w => exact hplaced

/-- So does every run without such a line. -/
theorem placed_after {s : Session} (h : s.registry = .builtin) (hplaced : s.Placed)
    (actions : List Action)
    (hkept : ∀ t line, (t, line) ∈ s.trace actions → ¬t.Replaces line) :
    (s.after actions).Placed := by
  induction actions generalizing s with
  | nil => exact hplaced
  | cons action actions ih =>
      rw [trace] at hkept
      have hfirst : (s.act action).Placed := placed_act h hplaced action fun t line hmem =>
        hkept t line (List.mem_append_left _ hmem)
      rw [after_cons]
      exact ih ((s.sameSetting_act action).registry.trans h) hfirst fun t line hmem =>
        hkept t line (List.mem_append_right _ hmem)

/-- After a run that has just set the working directory the session is in place. -/
theorem Settles.placed {s : Session} {actions : List Action} (hsettles : s.Settles actions)
    (h : s.registry = .builtin) (hplaced : s.Placed) : (s.after actions).Placed := by
  cases hsettles with
  | start => exact hplaced
  | boot earlier hint =>
      rw [after_concat, act]
      exact placed_boot ((s.sameSetting_after earlier).registry.trans h) hint
  | moved earlier moves =>
      rw [after_concat, act]
      exact placed_of_moves ((s.sameSetting_after earlier).registry.trans h) moves

section Ordinary

variable {s : Session} (h : s.registry = .builtin) (hhome : s.home.Ordinary)

include h hhome

/-- A line leaves the session where the path can be typed. -/
theorem ordinary_run (hcwd : s.cwd.Ordinary) (line : String) : (s.run line).2.cwd.Ordinary := by
  by_cases hmoves : s.Moves line
  · exact (enters_of_moves h hmoves).1.ordinary hcwd hhome
  · rw [run_cwd_of_not_moves h hmoves]
    exact hcwd

/-- So does every action, -/
theorem ordinary_act (hcwd : s.cwd.Ordinary) (action : Action) : (s.act action).cwd.Ordinary := by
  cases action with
  | boot hint =>
      have hsetting := s.sameSetting_landed hint
      have hhome' : (s.landed hint).home.Ordinary := by
        rw [hsetting.home]
        exact hhome
      have hlanded : (s.landed hint).cwd.Ordinary := by
        rw [cwd_landed]
        exact ordinary_landing hhome hint
      rw [act]
      cases hline : (s.landing hint).2 with
      | none =>
          rw [boot_of_none hline]
          exact hlanded
      | some line =>
          rw [boot_of_some hline]
          exact ordinary_run (hsetting.registry.trans h) hhome' hlanded line
  | line text =>
      rw [act]
      exact ordinary_run h hhome hcwd text
  | hide => exact hcwd
  | outside w => exact hcwd

/-- and every run. -/
theorem ordinary_after (hcwd : s.cwd.Ordinary) (actions : List Action) :
    (s.after actions).cwd.Ordinary := by
  induction actions generalizing s with
  | nil => exact hcwd
  | cons action actions ih =>
      have hsetting := s.sameSetting_act action
      have hhome' : (s.act action).home.Ordinary := by
        rw [hsetting.home]
        exact hhome
      rw [after_cons]
      exact ih (hsetting.registry.trans h) hhome' (ordinary_act h hhome hcwd action)

end Ordinary

/-- Whatever happens to a session of an ordinary user, over whatever tree: the names on the way to
    the working directory can be typed. Only a boot and a `cd` that succeeds change it. After it was
    set, and as long as no rebuild has put another tree in place, it is home or a readable directory
    of the tree. And wherever it is a readable directory, a bare `ls` lists the entries of that
    directory whose names do not begin with a dot, in their order. -/
theorem workingDirectory_invariant (setup : Setup) (tree : Dir)
    (huser : Path.OrdinaryName setup.config.user) (actions : List Action) :
    let first := overTree setup tree
    let s := first.after actions
    s.cwd.Ordinary ∧
    (∀ action, (s.act action).cwd ≠ s.cwd →
      (∃ hint, action = .boot hint) ∨ ∃ line, action = .line line ∧ s.Moves line) ∧
    (∀ earlier later, actions = earlier ++ later → first.Settles earlier →
      (∀ t line, (t, line) ∈ (first.after earlier).trace later → ¬t.Replaces line) →
      s.cwd = s.home ∨ ∃ entries, s.tree.dirAt? s.cwd.segments = some entries) ∧
    ∀ line, words line = ["ls"] → ∀ entries, s.tree.dirAt? s.cwd.segments = some entries →
      (s.run line).1 = .files ((entries.toList.filter fun e => !isHiddenName e.1).map fun e =>
        if e.2.isDir then e.1 ++ "/" else e.1) := by
  intro first s
  have hhome : first.home.Ordinary := (seated_overTree setup tree).ordinary_home huser
  have hregistry : s.registry = .builtin := (first.sameSetting_after actions).registry
  have hcwd : s.cwd.Ordinary := ordinary_after rfl hhome hhome actions
  refine ⟨hcwd, fun action => moves_of_cwd_ne hregistry,
    fun earlier later hactions hsettles hkept => ?_, fun line hline entries hentries => ?_⟩
  · -- What was set in the earlier part of the run holds through the later part.
    have hearlier : (first.after earlier).Placed := hsettles.placed rfl (.inl rfl)
    have hlater : ((first.after earlier).after later).Placed :=
      placed_after (first.sameSetting_after earlier).registry hearlier later hkept
    rw [← after_append, ← hactions] at hlater
    exact hlater
  · rw [run_output, hregistry, Registry.execute, hline, Registry.dispatch_eq,
      s.environment.result_ls hcwd hentries]
    rfl

/-- Where a boot finds the demonstration in the store, it goes to the repository. -/
theorem landing_demo {s : Session} (hhome : s.home = .home "u") {repo : Dir}
    (hstored : s.storedTree = demoTree repo) :
    s.landing "~/repositories/r" = (⟨["home", "u", "repositories", "r"]⟩, none) := by
  rw [landing, hstored, hhome]
  rfl

/-- The directory in which a rebuild finds the session is gone from the new tree. After a boot the
    session stands in a directory again, and can list it. -/
theorem workingDirectory_after_rebuild :
    let setup := demoSetup (.ofList [("README.md", .file true), (".git", .file true)])
    let tree := Dir.ofList [("home", .dir (.ofList [("u", .dir (.ofList [("old", .dir .empty)]))]))]
    let earlier := [.line "cd old", .line "taso-cli reset", .boot "~/repositories/r"]
    let s := (overTree setup tree).after (earlier ++ [.hide, .line "cat x"])
    s.cwd.Ordinary ∧ (s.cwd = s.home ∨ ∃ entries, s.tree.dirAt? s.cwd.segments = some entries) ∧
      (s.run " ls").1 = .files ["README.md"] := by
  intro setup tree earlier
  have huser : Path.OrdinaryName setup.config.user := by decide
  have hsettles : (overTree setup tree).Settles earlier :=
    .boot [.line "cd old", .line "taso-cli reset"] "~/repositories/r"
  have hlater : ∀ t : Session, t.trace [.hide, .line "cat x"] = [(t.hide, "cat x")] := fun _ => rfl
  have hentries : ((overTree setup tree).after (earlier ++ [.hide, .line "cat x"])).tree.dirAt?
      ((overTree setup tree).after (earlier ++ [.hide, .line "cat x"])).cwd.segments =
        some (.ofList [("README.md", .file true), (".git", .file true)]) := by
    have hafter (first : Session) : first.after (earlier ++ [.hide, .line "cat x"]) =
        (((((first.run "cd old").2.run "taso-cli reset").2.boot "~/repositories/r").hide).run
          "cat x").2 := rfl
    let s := ((overTree setup tree).run "cd old").2
    have hsetting : (overTree setup tree).SameSetting (s.run "taso-cli reset").2 :=
      ((overTree setup tree).sameSetting_run _).trans (s.sameSetting_run _)
    rcases run_reset_demo (s := s) (by decide) rfl rfl rfl rfl (by decide) rfl "taso-cli reset"
      (by decide) with ⟨traffic, hrun⟩
    have hstored : (s.run "taso-cli reset").2.storedTree =
        demoTree (.ofList [("README.md", .file true), (".git", .file true)]) := by
      rw [hrun, storedTree_of_held rfl rfl, Snapshot.read_snapshot (by decide +kernel)]
      rfl
    rw [hafter]
    generalize (s.run "taso-cli reset").2 = t at hsetting hstored
    have hlanding := landing_demo hsetting.home hstored
    have hstays : ¬(t.landed "~/repositories/r").hide.Moves "cat x" :=
      fun hmoves => absurd hmoves.1 (by decide)
    have hregistry : (t.landed "~/repositories/r").hide.registry = .builtin := hsetting.registry
    have htree : (t.landed "~/repositories/r").hide.tree = t.storedTree := rfl
    have hcwd : (t.landed "~/repositories/r").hide.cwd = (t.landing "~/repositories/r").1 := rfl
    rw [boot_of_none (congrArg Prod.snd hlanding), run_tree_of_ne hregistry (by decide),
      run_cwd_of_not_moves hregistry hstays, htree, hcwd, hstored, hlanding]
    rfl
  have hinvariant := workingDirectory_invariant setup tree huser (earlier ++ [.hide, .line "cat x"])
  -- From here on it does not matter what the session and the run are.
  clear_value earlier
  generalize overTree setup tree = first at *
  rcases hinvariant with ⟨hordinary, _, hplaced, hlists⟩
  refine ⟨hordinary, hplaced earlier _ rfl hsettles fun t line hmem hreplaces => ?_, ?_⟩
  · rw [hlater] at hmem
    rw [(Prod.mk.inj (List.mem_singleton.1 hmem)).2] at hreplaces
    exact absurd hreplaces.1 (by decide)
  · exact hlists " ls" (by decide) _ hentries

end TreeShell.Session
