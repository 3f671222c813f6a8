import TreeShell.Proofs.Command.Blind
import TreeShell.Proofs.Editor.Scrollback
import TreeShell.Proofs.Session.Failure

/-!
# The Numbers of Lines

A line that was entered is met again in three ways. The command `history` prints the last lines,
each behind a number. The view of a session has all of them in one list. And the arrow keys find
them from the end of that list. None of the three counts the lines of the log as it stands: the
empty ones are recorded too, one for every start of the shell among them, and each way leaves them
out for itself.

That they count alike is seen from the run. What it has entered so far, without the empty lines, is
one list that only ever grows at its end (`commands_after`). A number is a place in this list. So it
means the same line for as long as the session lives, whatever else is entered, hidden or changed,
and an arrow key that is pressed once for each line from there to the end comes to that line.

The line that asks for the history is not among its own rows, since it is recorded once it has run.

## Main definitions

* `Session.entered`: The lines of a run that are not empty.

## Theorems

* `History.map_snd_recent`, `History.map_fst_recent`: The rows are the last lines, and their numbers
  are consecutive.
* `History.getElem?_of_mem_recent`: The number of a row is a place among all lines.
* `Session.commands_act`, `Session.commands_after`: What actions and runs add to the lines.
* `Session.history_numbers`: The rows of a session, and what their numbers mean from then on.
-/

namespace TreeShell

namespace History

theorem commands_append (first more : List HistoryEntry) :
    commands (first ++ more) = commands first ++ commands more := by
  rw [commands, commands, commands, List.map_append, List.filter_append]

theorem map_snd_numbered (first : Nat) (lines : List String) :
    (numbered first lines).map Prod.snd = lines := by
  induction lines generalizing first with
  | nil => rfl
  | cons line rest ih => rw [numbered, List.map_cons, ih]

theorem map_fst_numbered (first : Nat) (lines : List String) :
    (numbered first lines).map Prod.fst = List.range' first lines.length := by
  induction lines generalizing first with
  | nil => rfl
  | cons line rest ih => rw [numbered, List.map_cons, ih, List.length_cons, List.range'_succ]

/-- A number counts on from the first one. -/
theorem getElem?_of_mem_numbered {first i : Nat} {lines : List String} {line : String}
    (h : (i, line) ∈ numbered first lines) : first ≤ i ∧ lines[i - first]? = some line := by
  induction lines generalizing first with
  | nil => cases h
  | cons head rest ih =>
      rcases List.mem_cons.1 h with h | h
      · cases h
        exact ⟨Nat.le_refl _, by rw [Nat.sub_self, List.getElem?_cons_zero]⟩
      · rcases ih h with ⟨hle, hline⟩
        refine ⟨Nat.le_of_succ_le hle, ?_⟩
        rw [show i - first = i - (first + 1) + 1 by omega, List.getElem?_cons_succ]
        exact hline

section Recent

variable (entries : List HistoryEntry) (limit : Nat)

/-- The rows are the last lines, as many as the limit says, or all there are. -/
theorem map_snd_recent :
    (recent entries limit).map Prod.snd =
      (commands entries).drop
        ((commands entries).length - min limit (commands entries).length) := by
  have hstart : (commands entries).length - limit =
      (commands entries).length - min limit (commands entries).length := by omega
  rw [recent, map_snd_numbered, hstart]

/-- Their numbers are consecutive, and end before that of the next line. -/
theorem map_fst_recent :
    (recent entries limit).map Prod.fst =
      List.range' ((commands entries).length - min limit (commands entries).length)
        (min limit (commands entries).length) := by
  have hstart : (commands entries).length - limit =
      (commands entries).length - min limit (commands entries).length := by omega
  rw [recent, map_fst_numbered, List.length_drop, hstart, Nat.sub_sub_self (Nat.min_le_right _ _)]

/-- The number of a row is the place of its line among all lines. -/
theorem getElem?_of_mem_recent {i : Nat} {line : String} (h : (i, line) ∈ recent entries limit) :
    (commands entries)[i]? = some line := by
  rcases getElem?_of_mem_numbered h with ⟨hle, hline⟩
  rwa [List.getElem?_drop, Nat.add_sub_cancel' hle] at hline

end Recent

end History

namespace Session

/-- The lines of a run that are not empty, in order. -/
def entered (s : Session) (actions : List Action) : List String :=
  ((s.trace actions).map Prod.snd).filter (· ≠ "")

theorem entered_cons (s : Session) (action : Action) (actions : List Action) :
    s.entered (action :: actions) =
      ((s.ran action).map Prod.snd).filter (· ≠ "") ++ (s.act action).entered actions := by
  rw [entered, trace, List.map_append, List.filter_append, entered]

/-- A line is added to the others unless it is empty. -/
theorem commands_run (s : Session) (line : String) :
    History.commands (s.run line).2.history =
      History.commands s.history ++ [line].filter (· ≠ "") := by
  rw [(s.run_recorded line).1, History.commands_append]
  rfl

/-- An action adds the lines that it runs. The greeting of a boot is recorded without a line. -/
theorem commands_act (s : Session) (action : Action) :
    History.commands (s.act action).history =
      History.commands s.history ++ ((s.ran action).map Prod.snd).filter (· ≠ "") := by
  cases action with
  | boot hint =>
      have hlanded : History.commands (s.landed hint).history = History.commands s.history := by
        rw [landed, History.commands_append]
        exact List.append_nil _
      rw [act, ran]
      cases hline : (s.landing hint).2 with
      | none =>
          rw [boot_of_none hline, hlanded]
          exact (List.append_nil _).symm
      | some line =>
          rw [boot_of_some hline, commands_run, hlanded]
          rfl
  | line text =>
      rw [act, ran, List.map_singleton, commands_run]
  | hide =>
      rw [act, ran, List.map_nil, List.filter_nil, List.append_nil, hide]
  | outside w =>
      rw [act, ran, List.map_nil, List.filter_nil, List.append_nil, amid]

/-- A run adds what it enters, by induction on its actions. -/
theorem commands_after (s : Session) (actions : List Action) :
    History.commands (s.after actions).history =
      History.commands s.history ++ s.entered actions := by
  induction actions generalizing s with
  | nil => exact (List.append_nil _).symm
  | cons action actions ih =>
      rw [after_cons, ih, commands_act, entered_cons, List.append_assoc]

/-- So what has a place among the lines keeps it. -/
theorem getElem?_commands_after {s : Session} {i : Nat} {line : String}
    (h : (History.commands s.history)[i]? = some line) (actions : List Action) :
    (History.commands (s.after actions).history)[i]? = some line := by
  rw [commands_after]
  exact (List.getElem?_append_left (List.getElem?_eq_some_iff.1 h).1).trans h

/-- A line that asks for the history gets the last lines of the run so far that are not empty, as
    many as the limit allows, with consecutive numbers that end at the last of them. Whatever
    happens to the session afterwards, the number of a row is the place of its line in what an
    editor sees of the history. So from its live line an editor comes to the line with one press of
    the up key for each line from there to the end. -/
theorem history_numbers (setup : Setup) (tree : Dir) (earlier : List Action) {line : String}
    (hline : words line = ["history"]) :
    let start := overTree setup tree
    let asked := (start.after earlier).run line
    let lines := start.entered earlier
    let shown := min setup.config.historyLimit lines.length
    ∃ rows, asked.1 = .history rows ∧
      rows.map Prod.snd = lines.drop (lines.length - shown) ∧
      rows.map Prod.fst = List.range' (lines.length - shown) shown ∧
      ∀ i c, (i, c) ∈ rows → ∀ later : List Action,
        let v := (asked.2.after later).view
        v.history[i]? = some c ∧
        ∀ e : Editor, e.scroll = .live →
          (e.strokes v (List.replicate (v.history.length - i) (.arrow .up))).buffer = c := by
  intro start asked lines shown
  have hsetting := start.sameSetting_after earlier
  have hlines : History.commands (start.after earlier).history = lines :=
    start.commands_after earlier
  have hexec : (start.after earlier).registry.execute line (start.after earlier).environment =
      (.history (History.recent (start.after earlier).history setup.config.historyLimit),
        (start.after earlier).environment) := by
    have hlimit : (start.after earlier).environment.config.historyLimit =
        setup.config.historyLimit := congrArg Config.historyLimit hsetting.config
    rw [hsetting.registry, Registry.execute, hline, ← hlimit]
    exact Environment.dispatch_history _
  refine ⟨History.recent (start.after earlier).history setup.config.historyLimit, ?_, ?_, ?_,
    fun i c hrow later => ?_⟩
  · exact (run_output _ line).trans (congrArg Prod.fst hexec)
  · rw [History.map_snd_recent, hlines]
  · rw [History.map_fst_recent, hlines]
  · -- The line of the row has its place before the history is asked for, and keeps it.
    intro v
    have hhere : (History.commands (start.after earlier).history)[i]? = some c :=
      History.getElem?_of_mem_recent _ _ hrow
    have hplace : v.history[i]? = some c := by
      have hlater := getElem?_commands_after hhere (.line line :: later)
      rwa [after_cons, act] at hlater
    refine ⟨hplace, fun e hlive => ?_⟩
    rcases List.getElem?_eq_some_iff.1 hplace with ⟨hlt, rfl⟩
    rcases Editor.strokes_up hlive hlt with ⟨completion, hshown⟩
    rw [hshown]

/-- The last two of three lines, and an empty one between them that has no number. After another
    boot, the screen cleared and more lines, `ls` still has the number it was printed with. -/
theorem history_numbers_demo :
    let setup : Setup :=
      { demoSetup .empty with config := { user := "u", repo := "r", historyLimit := 2 } }
    let start := overTree setup (defaultTree "u")
    let earlier : List Action := [.boot "", .line "pwd", .line "", .line "cd", .line "ls"]
    let later : List Action := [.line "clear", .boot "/nowhere", .hide, .line " "]
    let asked := (start.after earlier).run " history"
    let v := (asked.2.after later).view
    asked.1 = .history [(1, "cd"), (2, "ls")] ∧
      v.history = ["pwd", "cd", "ls", " history", "clear", "cd /nowhere", " "] ∧
      v.history[2]? = some "ls" ∧
      ∀ e : Editor, e.scroll = .live →
        (e.strokes v (List.replicate (v.history.length - 2) (.arrow .up))).buffer = "ls" := by
  intro setup start earlier later asked v
  have hline : words " history" = ["history"] := by decide
  rcases history_numbers setup (defaultTree "u") earlier hline with ⟨rows, hrows, _, _, hplaces⟩
  have hprinted : asked.1 = .history [(1, "cd"), (2, "ls")] := by decide +kernel
  obtain rfl : rows = [(1, "cd"), (2, "ls")] := Output.history.inj (hrows.symm.trans hprinted)
  exact ⟨hprinted, by decide +kernel, hplaces 2 "ls" (by decide) later⟩

end Session

end TreeShell
