import TreeShell.Proofs.Session.Stepwise
import TreeShell.Proofs.Session.WorkingDirectory

/-!
# The Ways Home

There are several ways home, and each goes through another form of the same path. A bare `cd` takes
the path as it was made from the user's name. `cd ~` replays its names. A boot without a hint prints
it and reads the text, and so does `ls` from there.

The name is not looked at when the path is made, so it matters what it is. A name that is empty or a
dot is left out by the replay, and two dots leave the directory of all homes, so that `cd ~` and a
bare `cd` part (`normalize_tilde_eq_home_iff`). A name with a slash in it is replayed as it stands,
but in the printed path it is read as two. Then a boot, and `ls`, look for another place than the
one the tree has. All of them agree for a name that can be typed, and for no other
(`waysHome_agree_iff`). What holds for every name is that `cd` succeeds, both ways.

## Main definitions

* `Session.Keeps`: A run that leaves the tree as it is.
* `Session.WaysAgree`: Two ways lead to the same directory, and a third way lists it.

## Theorems

* `Path.normalize_absolute_ordinary`: What is read from a printed path can be typed.
* `Path.normalize_tilde_eq_home_iff`: When a tilde is read as home.
* `Session.tree_act_of_kept`, `Session.Keeps.tree`: Such a run does, action by action.
* `Session.boot_home_iff`: When a boot without a hint gets home without a complaint.
* `Session.waysHome_agree_iff`: When all ways agree.
* `Session.waysHome_part`: They part.
-/

namespace TreeShell

namespace Path

/-- Text that begins with a slash only names what can be typed, whatever the two directories are. -/
theorem normalize_absolute_ordinary {input : String} (h : input.toList.head? = some '/')
    (cwd home : Path) : (normalize cwd home input).Ordinary := by
  intro s hs
  have hslash : '/' ∉ s.toList := Text.not_mem_of_mem_split (mem_split_of_mem_normalize h hs)
  rcases mem_foldl_step hs with hroot | ⟨_, hempty, hdot, hdots⟩
  · exact absurd hroot List.not_mem_nil
  · exact ⟨hempty, hslash, hdot, hdots⟩

/-- A tilde is read as the replay of home. -/
theorem normalize_tilde_home (cwd : Path) (user : String) :
    normalize cwd (home user) "~" = ⟨step ["home"] user⟩ := by
  rw [normalize_of_slash_notMem (by decide)]
  rfl

/-- So it is read as home if and only if the user's name is pushed. -/
theorem normalize_tilde_eq_home_iff (cwd : Path) (user : String) :
    normalize cwd (home user) "~" = home user ↔ user ≠ "" ∧ user ≠ "." ∧ user ≠ ".." := by
  rw [normalize_tilde_home, home, mk.injEq]
  constructor
  · intro h
    refine ⟨?_, ?_, ?_⟩
    · rintro rfl
      exact absurd h (by decide)
    · rintro rfl
      exact absurd h (by decide)
    · rintro rfl
      exact absurd h (by decide)
  · rintro ⟨hempty, hdot, hdots⟩
    exact step_of_ne hempty hdot hdots ["home"]

end Path

/-- In the default tree, home is there, and it is empty. -/
theorem dirAt?_home_defaultTree (user : String) :
    (defaultTree user).dirAt? (Path.home user).segments = some .empty := by
  have htree : defaultTree user = .entry "home" (.dir (.entry user (.dir .empty) .empty)) .empty :=
    rfl
  rw [htree]
  simp [Path.home, Dir.dirAt?, Dir.follow, Node.follow, Dir.find?]

/-- Whatever the user is called, a tilde leads to a directory of the default tree: to that of the
    user, to that of all homes, or to the root. -/
theorem exists_dirAt?_tilde (cwd : Path) (user : String) : ∃ entries,
    (defaultTree user).dirAt? (Path.normalize cwd (.home user) "~").segments = some entries := by
  rw [Path.normalize_tilde_home, Path.step]
  split
  · exact ⟨_, rfl⟩
  split
  · exact ⟨_, rfl⟩
  · exact ⟨_, dirAt?_home_defaultTree user⟩

namespace Session

/-- A run without a boot, and without a rebuild that puts another tree in place. -/
structure Keeps (s : Session) (actions : List Action) : Prop where
  boots : ∀ hint, .boot hint ∉ actions
  rebuilds : ∀ t line, (t, line) ∈ s.trace actions → ¬t.Replaces line

/-- A bare `cd` and `cd ~` succeed and lead to the same directory, and `ls` lists what is there:
    nothing. -/
structure WaysAgree (s : Session) : Prop where
  bare : s.Moves "cd"
  tilde : s.Moves "cd ~"
  same : (s.run "cd").2.cwd = (s.run "cd ~").2.cwd
  listed : ((s.run "cd").2.run "ls").1 = .files []

section Kept

/-- An action that is no boot and replaces no tree keeps the tree. -/
theorem tree_act_of_kept {s : Session} (h : s.registry = .builtin) {action : Action}
    (hboot : ∀ hint, action ≠ .boot hint)
    (hkept : ∀ t line, (t, line) ∈ s.ran action → ¬t.Replaces line) :
    (s.act action).tree = s.tree := by
  cases action with
  | boot hint => exact absurd rfl (hboot hint)
  | line text =>
      rw [act]
      by_cases hreset : words text = ["taso-cli", "reset"]
      · have hline := hkept s text List.mem_cons_self
        exact Decidable.of_not_not fun hother => hline ⟨hreset, hother⟩
      · exact run_tree_of_ne h hreset
  | hide => rfl
  | outside w => rfl

/-- So does a run of them. -/
theorem Keeps.tree {s : Session} {actions : List Action} (hkeeps : s.Keeps actions)
    (h : s.registry = .builtin) : (s.after actions).tree = s.tree := by
  induction actions generalizing s with
  | nil => rfl
  | cons action actions ih =>
      rcases hkeeps with ⟨hboots, hrebuilds⟩
      rw [trace] at hrebuilds
      have hfirst : (s.act action).tree = s.tree := by
        refine tree_act_of_kept h (fun hint hboot => ?_) fun t line hmem =>
          hrebuilds t line (List.mem_append_left _ hmem)
        exact hboots hint (hboot ▸ List.mem_cons_self)
      have hrest : (s.act action).Keeps actions :=
        ⟨fun hint hmem => hboots hint (List.mem_cons_of_mem _ hmem), fun t line hmem =>
          hrebuilds t line (List.mem_append_right _ hmem)⟩
      rw [after_cons, ih hrest ((s.sameSetting_act action).registry.trans h), hfirst]

end Kept

/-- A bare `cd` goes home, whatever the tree has there. -/
theorem run_cd_bare {s : Session} (h : s.registry = .builtin) :
    s.Moves "cd" ∧ (s.run "cd").2.cwd = s.home ∧ (s.run "cd").2.tree = s.tree := by
  have hwords : words "cd" = ["cd"] := by decide
  have hresult : s.registry.result (words "cd") s.environment =
      (.ok .none, { s.environment with cwd := s.home }) := by
    rw [h, hwords]
    rfl
  refine ⟨⟨by rw [hwords]; rfl, fun error hfails => ?_⟩, ?_, ?_⟩
  · rw [Fails, hresult] at hfails
    cases hfails
  · rw [run_cwd, Registry.execute, Registry.dispatch_eq, hresult]
  · rw [run_tree, Registry.execute, Registry.dispatch_eq, hresult]
    rfl

section Default

variable {s : Session} (h : s.Seated) (htree : s.tree = defaultTree s.config.user)

include h htree

/-- Over the default tree `cd ~` succeeds as well, and leads where the tilde does. -/
theorem run_cd_tilde : s.Moves "cd ~" ∧
    (s.run "cd ~").2.cwd = Path.normalize s.cwd (.home s.config.user) "~" := by
  have hwords : words "cd ~" = ["cd", "~"] := by decide
  have hfree : (s.tree.resolve s.cwd s.home "~").obstacle? = none := by
    rcases exists_dirAt?_tilde s.cwd s.config.user with ⟨entries, hentries⟩
    rw [Resolved.obstacle?_eq_none_iff, htree, h.home]
    exact ⟨entries, Dir.dirAt?_eq_some_iff.1 hentries⟩
  rw [← h.home]
  exact ⟨⟨by rw [hwords]; rfl,
    (forall_not_fails_cd_iff h.registry hwords (by decide)).2 hfree⟩,
    (run_cd_entered h.registry hwords (by decide) hfree).1⟩

/-- Both ways lead to the same directory unless the user's name is a step of its own. -/
theorem cwd_cd_eq_iff : (s.run "cd").2.cwd = (s.run "cd ~").2.cwd ↔
    s.config.user ≠ "" ∧ s.config.user ≠ "." ∧ s.config.user ≠ ".." := by
  rw [(run_cd_bare h.registry).2.1, (run_cd_tilde h htree).2, h.home, eq_comm,
    Path.normalize_tilde_eq_home_iff]

/-- All three agree if the name can be typed. -/
theorem waysAgree_of_ordinary (huser : Path.OrdinaryName s.config.user) : s.WaysAgree := by
  rcases run_cd_bare h.registry with ⟨hbare, hcwd, hkept⟩
  have hsetting := s.sameSetting_run "cd"
  have hordinary : (s.run "cd").2.cwd.Ordinary := by
    rw [hcwd]
    exact h.ordinary_home huser
  have hentries : (s.run "cd").2.tree.dirAt? (s.run "cd").2.cwd.segments = some .empty := by
    rw [hcwd, hkept, htree, h.home, dirAt?_home_defaultTree]
  refine ⟨hbare, (run_cd_tilde h htree).1,
    (cwd_cd_eq_iff h htree).2 ⟨huser.1, huser.2.2.1, huser.2.2.2⟩, ?_⟩
  have hwords : words "ls" = ["ls"] := by decide
  rw [run_output, hsetting.registry, h.registry, Registry.execute, hwords, Registry.dispatch_eq,
    (s.run "cd").2.environment.result_ls hordinary hentries]
  rfl

end Default

section Boot

variable {s : Session}

/-- A boot that records no line of its own has landed in the directory that its hint names. -/
theorem cwd_boot_of_unrecorded {hint : String}
    (hhistory : (s.boot hint).history = s.history ++ [⟨"", ""⟩]) :
    (s.boot hint).cwd = Path.normalize s.home s.home (if hint = "" then s.home.text else hint) := by
  cases hline : (s.landing hint).2 with
  | some line =>
      -- The line would be recorded behind the greeting.
      rw [boot_of_some hline, ((s.landed hint).run_recorded line).1, landed] at hhistory
      have hlength := congrArg List.length hhistory
      simp at hlength
  | none =>
      rw [boot_of_none hline, cwd_landed]
      rw [landing] at hline ⊢
      generalize (if hint = "" then s.home.text else hint) = input at hline ⊢
      have hpath : (s.storedTree.resolve s.home s.home input).path =
          Path.normalize s.home s.home input := rfl
      generalize s.storedTree.resolve s.home s.home input = found at hline hpath ⊢
      rcases found with ⟨_ | entries | _ | _ | _, path⟩
      · cases hline
      · exact hpath
      · cases hline
      · cases hline
      · cases hline

/-- A boot without a hint gets home and records no line if and only if the name can be typed. -/
theorem boot_home_iff (h : s.Seated) (hstored : s.storedTree = defaultTree s.config.user) :
    ((s.boot "").history = s.history ++ [⟨"", ""⟩] ∧
      (s.boot "").outputs = s.outputs ++ [.text banner] ∧ (s.boot "").cwd = s.home) ↔
        Path.OrdinaryName s.config.user := by
  constructor
  · rintro ⟨hhistory, _, hcwd⟩
    -- What was read from the printed path is home, so each name of home can be typed.
    have hordinary : s.home.Ordinary := by
      rw [← hcwd, cwd_boot_of_unrecorded hhistory, if_pos rfl]
      exact Path.normalize_absolute_ordinary (Path.head?_text _) _ _
    rw [h.home] at hordinary
    exact hordinary _ (List.mem_cons_of_mem _ List.mem_cons_self)
  · intro huser
    have hlanding : s.landing "" = (s.home, none) := by
      rw [landing, if_pos rfl, Dir.resolve, Path.normalize_text (h.ordinary_home huser), hstored,
        h.home, Dir.dirAt?_eq_some_iff.1 (dirAt?_home_defaultTree s.config.user)]
      rfl
    rw [boot_of_none (by rw [hlanding])]
    refine ⟨rfl, rfl, ?_⟩
    rw [cwd_landed, hlanding]

end Boot

/-- Over an empty store, a boot without a hint greets and gets home without a complaint, and from
    then on all ways home agree as long as nothing puts another tree in place, if and only if the
    user's name can be typed: it is not empty, a dot or two dots, and holds no slash. Whatever the
    name is, a bare `cd` and `cd ~` succeed. For a name with a slash they even agree, and it is only
    the boot that does not get home. -/
theorem waysHome_agree_iff (setup : Setup) (hstore : setup.store.found = .ok none) :
    let user := setup.config.user
    let s := (start setup).boot ""
    ((s.history = [⟨"", ""⟩] ∧ s.outputs = [.text banner] ∧ s.cwd = s.home ∧
        ∀ actions, s.Keeps actions → (s.after actions).WaysAgree) ↔ Path.OrdinaryName user) ∧
      ∀ actions, s.Keeps actions →
        let t := s.after actions
        t.Moves "cd" ∧ t.Moves "cd ~" ∧
          ((t.run "cd").2.cwd = (t.run "cd ~").2.cwd ↔ user ≠ "" ∧ user ≠ "." ∧ user ≠ "..") := by
  intro user s
  have hseated : (start setup).Seated := seated_overTree setup _
  have hstored : (start setup).storedTree = defaultTree user := by
    rw [storedTree, show (start setup).store.found = .ok none from hstore]
    rfl
  have hsetting : (start setup).SameSetting s := (start setup).sameSetting_act (.boot "")
  -- Through the whole run the session keeps its setting and the default tree.
  have hlater : ∀ actions, s.Keeps actions → (s.after actions).Seated ∧
      (s.after actions).tree = defaultTree user ∧ (s.after actions).config.user = user := by
    intro actions hkeeps
    have hafter := hsetting.trans (s.sameSetting_after actions)
    refine ⟨hafter.seated hseated, ?_, congrArg Config.user hafter.config⟩
    rw [hkeeps.tree (hsetting.registry.trans hseated.registry), tree_boot hseated.registry, hstored]
  have hboot : (s.history = [⟨"", ""⟩] ∧ s.outputs = [.text banner] ∧ s.cwd = s.home) ↔
      Path.OrdinaryName user := by
    rw [hsetting.home]
    exact boot_home_iff hseated hstored
  constructor
  · rw [← hboot]
    refine ⟨fun hall => ⟨hall.1, hall.2.1, hall.2.2.1⟩, fun hgreets => ?_⟩
    refine ⟨hgreets.1, hgreets.2.1, hgreets.2.2, fun actions hkeeps => ?_⟩
    rcases hlater actions hkeeps with ⟨hseated', htree, huser⟩
    rw [← huser] at htree
    refine waysAgree_of_ordinary hseated' htree ?_
    rw [huser]
    exact hboot.1 hgreets
  · intro actions hkeeps t
    rcases hlater actions hkeeps with ⟨hseated', htree, huser⟩
    rw [← huser] at htree ⊢
    exact ⟨(run_cd_bare hseated'.registry).1, (run_cd_tilde hseated' htree).1,
      cwd_cd_eq_iff hseated' htree⟩

/-- A user with a plain name, who goes away and has not saved anything. -/
theorem waysHome_agree_iff_plain :
    let s := (start (demoSetup .empty)).boot ""
    s.outputs = [.text banner] ∧ (s.after [.line "cd /", .hide]).WaysAgree := by
  intro s
  have hall := (waysHome_agree_iff (demoSetup .empty) rfl).1.2 (by decide)
  have htrace : s.trace [.line "cd /", .hide] = [(s, "cd /")] := rfl
  have hkeeps : s.Keeps [.line "cd /", .hide] := by
    refine ⟨fun hint hmem => ?_, fun t line hmem hreplaces => ?_⟩
    · rcases List.mem_cons.1 hmem with hboot | hmem
      · cases hboot
      · cases List.mem_singleton.1 hmem
    · rw [htrace] at hmem
      rw [(Prod.mk.inj (List.mem_singleton.1 hmem)).2] at hreplaces
      exact absurd hreplaces.1 (by decide)
  exact ⟨hall.2.1, hall.2.2.2 _ hkeeps⟩

/-- For a user whose name has a slash in it, the boot complains and `ls` does not find home. For one
    who is called two dots, a bare `cd` and `cd ~` lead to different directories. -/
theorem waysHome_part :
    let named := fun user =>
      (start { demoSetup .empty with config := { user, repo := "r" } }).boot ""
    (named "a/b").outputs = [.text banner, .text "cd: /home/a/b: No such file or directory"] ∧
      (((named "a/b").run "cd").2.run "ls").1 = .text "ls: /home/a/b: No such file or directory" ∧
      ((named "..").run "cd").2.cwd = ⟨["home", ".."]⟩ ∧
      ((named "..").run "cd ~").2.cwd = Path.root := by
  refine ⟨?_, ?_, ?_, ?_⟩
  · decide +kernel
  · decide +kernel
  · decide +kernel
  · decide +kernel

end Session

end TreeShell
