import Mathlib.Data.List.Induction
import Mathlib.Data.List.Sort
import Mathlib.Data.String.Basic
import TreeShell.Proofs.Command.Accepted

/-!
# The Gate of the Registry

What the registry promises to a command does not depend on the eleven that a session knows. Commands
of any kind may be registered, with ranges of arguments that nothing satisfies, several under one
name, in any order. The table of them is described by two facts only: under a name stands the
command that was registered last, and under no name stand two.

Words either run one command, once, or they run none and are answered with the first complaint that
applies. That a command runs once and not twice cannot be seen from what is printed, since a command
may not mind being run again. So every command is made to leave a note when it is run, whatever the
note does to the environment. Words that run a command leave exactly one, and words that are turned
away leave none.

Completion takes its names from the same table and sorts them. Since no two are alike, ascending
order is strict.

## Main definitions

* `Registered`: The last of some commands with a name.
* `Runs`: Words that get past the gate to a command.
* `TurnedAway`: Words that do not, with what is printed.
* `Command.noted`: A command that leaves a note when it is run.
* `Registry.ofList`: The registry after commands were registered one after the other.

## Theorems

* `Registry.find?_ofList_eq_some_iff`: The command registered last is found.
* `Registry.mem_ofList_iff`: Nothing else is in the table.
* `Registry.ascending_completions`, `Registry.mem_completions_iff`: What is offered.
* `Runs.unique`, `runs_or_turnedAway`, `TurnedAway.not_runs`: Words run one command or are turned
  away.
* `Runs.dispatch`, `TurnedAway.dispatch`: What comes of them.
* `Runs.noted`, `TurnedAway.noted`: Notes make no difference to the gate.
* `Registry.dispatch_gate`: All of this together.
-/

namespace TreeShell

/-- `c` is the last of the commands `cs` that has this name. -/
def Registered (cs : List Command) (name : String) (c : Command) : Prop :=
  c.name = name ∧ ∃ earlier later, cs = earlier ++ c :: later ∧ ∀ d ∈ later, d.name ≠ name

/-- The words `argv` name the command `c`, and `args` are arguments that it declares to take. -/
structure Runs (cs : List Command) (argv : List String) (c : Command) (args : List String) :
    Prop where
  typed : argv = c.name :: args
  registered : Registered cs c.name c
  enough : c.minArgs ≤ args.length
  few : args.length ≤ c.maxArgs
  options : c.takesOptions = true ∨ ∀ arg ∈ args, ∀ rest, arg ≠ "-" ++ rest

/-- The words `argv` run nothing, and `answer` is what is printed: the first complaint that applies,
    in this order. -/
inductive TurnedAway (cs : List Command) : (argv : List String) → (answer : Output) → Prop where
  | nothing : TurnedAway cs [] .none
  | unknown {name : String} {args : List String} (absent : ∀ c ∈ cs, c.name ≠ name) :
      TurnedAway cs (name :: args) (.text (name ++ ": " ++ "command not found"))
  | tooMany {name : String} {args : List String} {c : Command} (registered : Registered cs name c)
      (many : c.maxArgs < args.length) :
      TurnedAway cs (name :: args) (.text (name ++ ": " ++ "too many arguments"))
  | tooFew {name : String} {args : List String} {c : Command} (registered : Registered cs name c)
      (notMany : args.length ≤ c.maxArgs) (few : args.length < c.minArgs) :
      TurnedAway cs (name :: args) (.text (name ++ ": " ++ "missing file operand"))
  | option {name rest : String} {before after : List String} {c : Command}
      (registered : Registered cs name c)
      (notMany : (before ++ ("-" ++ rest) :: after).length ≤ c.maxArgs)
      (notFew : c.minArgs ≤ (before ++ ("-" ++ rest) :: after).length)
      (plain : c.takesOptions = false) (first : ∀ arg ∈ before, ∀ more, arg ≠ "-" ++ more) :
      TurnedAway cs (name :: (before ++ ("-" ++ rest) :: after))
        (.text (name ++ ": " ++ ("-" ++ rest ++ ": invalid option")))

/-- A command that leaves a note in the environment, and then does what it did before. -/
def Command.noted (note : Command → List String → Environment → Environment) (c : Command) :
    Command :=
  { c with run := fun args => do
      modify (note c args)
      c.run args }

/-- What looks like an option begins with a dash. -/
theorem isOption_eq_true_iff {arg : String} : isOption arg = true ↔ ∃ rest, arg = "-" ++ rest :=
  Text.startsWith_iff

theorem isOption_eq_false_iff {arg : String} :
    isOption arg = false ↔ ∀ rest, arg ≠ "-" ++ rest := by
  rw [← Bool.not_eq_true, isOption_eq_true_iff, not_exists]

namespace Registry

/-- The registry after the commands `cs` were registered, the first one first. That of a session is
    made in this way. -/
def ofList (cs : List Command) : Registry := cs.foldl register {}

theorem ofList_concat (cs : List Command) (c : Command) :
    ofList (cs ++ [c]) = (ofList cs).register c := List.foldl_append

section Table

/-- A command takes the place of the one that had its name, and of no other. -/
theorem find?_register (r : Registry) (c : Command) (name : String) :
    (r.register c).find? name = if c.name = name then some c else r.find? name := by
  rw [find?, register, List.find?_cons]
  by_cases hname : c.name = name
  · rw [if_pos hname, beq_iff_eq.2 hname]
  · have hother : (c.name == name) = false := beq_eq_false_iff_ne.2 hname
    rw [if_neg hname, hother, List.find?_filter, find?]
    -- The commands that were struck out have another name than the one looked for.
    refine congrArg (r.commands.find? ·) (funext fun d => ?_)
    rw [Bool.eq_iff_iff]
    simp only [decide_eq_true_eq, beq_iff_eq]
    exact ⟨fun h => h.2, fun h => ⟨fun hd => hname (hd ▸ h), h⟩⟩

/-- So the command that was registered last under a name is found. -/
theorem find?_ofList (cs : List Command) (name : String) :
    (ofList cs).find? name = cs.reverse.find? (·.name == name) := by
  induction cs using List.reverseRecOn with
  | nil => rfl
  | append_singleton cs c ih =>
      rw [ofList_concat, find?_register, List.reverse_concat, List.find?_cons, ih]
      by_cases hname : c.name = name
      · rw [if_pos hname, beq_iff_eq.2 hname]
      · rw [if_neg hname, beq_eq_false_iff_ne.2 hname]

theorem find?_ofList_eq_some_iff {cs : List Command} {name : String} {c : Command} :
    (ofList cs).find? name = some c ↔ Registered cs name c := by
  rw [find?_ofList, List.find?_eq_some_iff_append, Registered, beq_iff_eq]
  refine and_congr_right fun _ => ?_
  constructor
  · rintro ⟨later, earlier, hreverse, hlater⟩
    refine ⟨earlier.reverse, later.reverse, ?_, fun d hd => ?_⟩
    · rw [← cs.reverse_reverse, hreverse]
      simp
    · simpa using hlater d (List.mem_reverse.1 hd)
  · rintro ⟨earlier, later, rfl, hlater⟩
    refine ⟨later.reverse, earlier.reverse, by simp, fun d hd => ?_⟩
    simpa using hlater d (List.mem_reverse.1 hd)

theorem find?_ofList_eq_none_iff {cs : List Command} {name : String} :
    (ofList cs).find? name = none ↔ ∀ c ∈ cs, c.name ≠ name := by
  rw [find?_ofList, List.find?_eq_none]
  simp only [List.mem_reverse, beq_iff_eq, Ne]

/-- A command is registered under one name at a time. -/
theorem nodup_names_register {r : Registry} (h : (r.commands.map Command.name).Nodup)
    (c : Command) : ((r.register c).commands.map Command.name).Nodup := by
  rw [register, List.map_cons, List.nodup_cons]
  constructor
  · rw [List.mem_map]
    rintro ⟨d, hd, hname⟩
    have hother := (List.mem_filter.1 hd).2
    simp only [decide_eq_true_eq] at hother
    exact hother hname
  · exact h.sublist (List.filter_sublist.map Command.name)

/-- No two commands of the table have the same name. -/
theorem nodup_names_ofList (cs : List Command) :
    ((ofList cs).commands.map Command.name).Nodup := by
  induction cs using List.reverseRecOn with
  | nil => exact List.nodup_nil
  | append_singleton cs c ih =>
      rw [ofList_concat]
      exact nodup_names_register ih c

/-- So the table holds what can be found in it. -/
theorem mem_ofList_iff {cs : List Command} {c : Command} :
    c ∈ (ofList cs).commands ↔ Registered cs c.name c := by
  rw [← find?_ofList_eq_some_iff]
  refine ⟨fun hmem => ?_, List.mem_of_find?_eq_some⟩
  cases hfind : (ofList cs).find? c.name with
  | none =>
      have hnone := List.find?_eq_none.1 hfind c hmem
      simp at hnone
  | some d =>
      -- What is found has the same name, and there is only one of that name.
      have hname : d.name = c.name := by simpa using List.find?_some hfind
      exact congrArg some (List.inj_on_of_nodup_map (nodup_names_ofList cs)
        (List.mem_of_find?_eq_some hfind) hmem hname)

end Table

/-- The names that are offered are in ascending order, and no two are alike. -/
theorem ascending_completions (cs : List Command) (start : String) :
    ((ofList cs).completions start).Pairwise (· < ·) := by
  have hnodup : ((ofList cs).completions start).Nodup := by
    rw [completions, (List.mergeSort_perm _ _).nodup_iff]
    exact (nodup_names_ofList cs).sublist (List.filter_sublist.map Command.name)
  exact (List.sortedLT_iff_nodup_and_sortedLE.2 ⟨hnodup, List.sortedLE_mergeSort⟩).pairwise

/-- They are those of the registered commands, without the ones that are kept out. -/
theorem mem_completions_iff {cs : List Command} {start name : String} :
    name ∈ (ofList cs).completions start ↔ ∃ c, Registered cs name c ∧ c.category ≠ "admin" ∧
      ∃ rest, name = start ++ rest := by
  rw [completions, List.mem_mergeSort, List.mem_map]
  simp only [List.mem_filter, mem_ofList_iff, Bool.and_eq_true, decide_eq_true_eq,
    Text.startsWith_iff]
  constructor
  · rintro ⟨c, ⟨hregistered, hoffered⟩, rfl⟩
    exact ⟨c, hregistered, hoffered⟩
  · rintro ⟨c, hregistered, hoffered⟩
    obtain rfl := hregistered.1
    exact ⟨c, ⟨hregistered, hoffered⟩, rfl⟩

end Registry

section Gate

variable {cs : List Command} {argv : List String}

theorem Registered.unique {name : String} {c c' : Command} (h : Registered cs name c)
    (h' : Registered cs name c') : c' = c := by
  have hfind := Registry.find?_ofList_eq_some_iff.2 h
  rw [Registry.find?_ofList_eq_some_iff.2 h'] at hfind
  exact Option.some.inj hfind

/-- At most one command runs, and with no other arguments. -/
theorem Runs.unique {c c' : Command} {args args' : List String} (h : Runs cs argv c args)
    (h' : Runs cs argv c' args') : c' = c ∧ args' = args := by
  obtain ⟨hname, hargs⟩ := List.cons.inj (h.typed.symm.trans h'.typed)
  exact ⟨h.registered.unique (hname ▸ h'.registered), hargs.symm⟩

/-- No words are turned away and run something as well. -/
theorem TurnedAway.not_runs {answer : Output} (h : TurnedAway cs argv answer) (c : Command)
    (args : List String) : ¬Runs cs argv c args := by
  rintro ⟨typed, registered, enough, few, options⟩
  cases h with
  | nothing => cases typed
  | unknown absent =>
      obtain ⟨rfl, rfl⟩ := List.cons.inj typed
      obtain ⟨_, earlier, later, hcs, _⟩ := registered
      exact absent c (hcs ▸ List.mem_append_right _ List.mem_cons_self) rfl
  | tooMany registered' many =>
      obtain ⟨rfl, rfl⟩ := List.cons.inj typed
      cases registered.unique registered'
      exact absurd few (Nat.not_le.2 many)
  | tooFew registered' _ few' =>
      obtain ⟨rfl, rfl⟩ := List.cons.inj typed
      cases registered.unique registered'
      exact absurd enough (Nat.not_le.2 few')
  | option registered' _ _ plain =>
      obtain ⟨rfl, rfl⟩ := List.cons.inj typed
      cases registered.unique registered'
      rcases options with htakes | hplain
      · rw [plain] at htakes
        cases htakes
      · exact hplain _ (List.mem_append_right _ List.mem_cons_self) _ rfl

/-- All words run a command or are turned away. -/
theorem runs_or_turnedAway (cs : List Command) (argv : List String) :
    (∃ c args, Runs cs argv c args) ∨ ∃ answer, TurnedAway cs argv answer := by
  cases argv with
  | nil => exact .inr ⟨_, .nothing⟩
  | cons name args =>
      cases hfind : (Registry.ofList cs).find? name with
      | none => exact .inr ⟨_, .unknown (Registry.find?_ofList_eq_none_iff.1 hfind)⟩
      | some c =>
          have hregistered := Registry.find?_ofList_eq_some_iff.1 hfind
          obtain rfl : c.name = name := hregistered.1
          by_cases hmany : c.maxArgs < args.length
          · exact .inr ⟨_, .tooMany hregistered hmany⟩
          by_cases hfew : args.length < c.minArgs
          · exact .inr ⟨_, .tooFew hregistered (Nat.not_lt.1 hmany) hfew⟩
          rw [Nat.not_lt] at hmany hfew
          cases htakes : c.takesOptions with
          | true => exact .inl ⟨c, args, rfl, hregistered, hfew, hmany, .inl htakes⟩
          | false =>
              cases hoption : args.find? isOption with
              | none =>
                  refine .inl ⟨c, args, rfl, hregistered, hfew, hmany, .inr fun arg harg => ?_⟩
                  exact isOption_eq_false_iff.1 (by simpa using List.find?_eq_none.1 hoption arg harg)
              | some option =>
                  -- It is the first one: none of those before it begins with a dash.
                  obtain ⟨hdash, before, after, rfl, hbefore⟩ :=
                    List.find?_eq_some_iff_append.1 hoption
                  obtain ⟨rest, rfl⟩ := isOption_eq_true_iff.1 hdash
                  refine .inr ⟨_, .option hregistered hmany hfew htakes fun arg harg => ?_⟩
                  exact isOption_eq_false_iff.1 (by simpa using hbefore arg harg)

/-- What gets past the gate is run, and what the command fails with is printed. -/
theorem Runs.dispatch {c : Command} {args : List String} (h : Runs cs argv c args)
    (env : Environment) : (Registry.ofList cs).dispatch argv env =
      (.ofResult ((c.run args).outcome env).1, ((c.run args).outcome env).2) := by
  have hgate : c.refusal? args = none :=
    Command.refusal?_eq_none_iff.2 ⟨h.enough, h.few, h.options.imp_right fun hplain arg harg =>
      isOption_eq_false_iff.2 (hplain arg harg)⟩
  rw [h.typed]
  exact Registry.dispatch_accepted (Registry.find?_ofList_eq_some_iff.2 h.registered) hgate env

/-- Words that their command refuses are answered with its complaint, and change nothing. -/
theorem Registered.dispatch_refused {name : String} {args : List String} {c : Command}
    (h : Registered cs name c) {complaint : Complaint} (hgate : c.refusal? args = some complaint)
    (env : Environment) : (Registry.ofList cs).dispatch (name :: args) env =
      (.text (CommandError.message ⟨name, complaint⟩), env) := by
  rw [Registry.dispatch]
  simp only [Registry.find?_ofList_eq_some_iff.2 h, hgate]

/-- What is turned away is answered, and changes nothing. -/
theorem TurnedAway.dispatch {answer : Output} (h : TurnedAway cs argv answer) (env : Environment) :
    (Registry.ofList cs).dispatch argv env = (answer, env) := by
  cases h with
  | nothing => rfl
  | unknown absent =>
      rw [Registry.dispatch]
      simp only [Registry.find?_ofList_eq_none_iff.2 absent]
      rfl
  | tooMany registered many => exact registered.dispatch_refused (if_pos many) env
  | @tooFew name args c registered notMany few =>
      have hgate : c.refusal? args = some .missingOperand := by
        rw [Command.refusal?, if_neg (Nat.not_lt.2 notMany), if_pos few]
      exact registered.dispatch_refused hgate env
  | @option name rest before after c registered notMany notFew plain first =>
      have hoption : (before ++ ("-" ++ rest) :: after).find? isOption = some ("-" ++ rest) := by
        refine List.find?_eq_some_iff_append.2
          ⟨isOption_eq_true_iff.2 ⟨rest, rfl⟩, before, after, rfl, fun arg harg => ?_⟩
        rw [isOption_eq_false_iff.2 (first arg harg)]
        rfl
      have hgate : c.refusal? (before ++ ("-" ++ rest) :: after) =
          some (.invalidOption (some ("-" ++ rest))) := by
        rw [Command.refusal?, if_neg (Nat.not_lt.2 notMany), if_neg (Nat.not_lt.2 notFew), plain,
          if_neg Bool.false_ne_true, hoption, Option.map_some]
      exact registered.dispatch_refused hgate env

end Gate

section Notes

variable {cs : List Command} {argv : List String}
  (note : Command → List String → Environment → Environment)

/-- A command with a note does what it did before, from where its note has been made. -/
theorem Command.outcome_noted (c : Command) (args : List String) (env : Environment) :
    ((c.noted note).run args).outcome env = (c.run args).outcome (note c args env) := by
  rw [noted, CommandM.outcome_bind, CommandM.outcome_modify]

/-- Notes do not change which command is found. -/
theorem Registered.noted {name : String} {c : Command} (h : Registered cs name c) :
    Registered (cs.map (.noted note)) name (c.noted note) := by
  obtain ⟨hname, earlier, later, rfl, hlater⟩ := h
  refine ⟨hname, earlier.map (.noted note), later.map (.noted note), List.map_append, ?_⟩
  rw [List.forall_mem_map]
  exact hlater

theorem Runs.noted {c : Command} {args : List String} (h : Runs cs argv c args) :
    Runs (cs.map (.noted note)) argv (c.noted note) args :=
  ⟨h.typed, h.registered.noted note, h.enough, h.few, h.options⟩

theorem TurnedAway.noted {answer : Output} (h : TurnedAway cs argv answer) :
    TurnedAway (cs.map (.noted note)) argv answer := by
  cases h with
  | nothing => exact .nothing
  | unknown absent => exact .unknown (List.forall_mem_map.2 absent)
  | tooMany registered many => exact .tooMany (registered.noted note) many
  | tooFew registered notMany few => exact .tooFew (registered.noted note) notMany few
  | option registered notMany notFew plain first =>
      exact .option (registered.noted note) notMany notFew plain first

end Notes

/-- Whatever commands are registered, in whatever order, and whatever the words are. Either the
    words run one command, the one registered last under the first word, and the other words are its
    arguments: they are in its range, and none of them begins with a dash unless it takes options.
    What comes of the words is then what comes of that run, and if every command leaves a note when
    it is run, this is as if the one note had been made before. Or they run none. Then the first
    complaint that applies is printed, nothing changes, and no note is made. What is offered for a
    beginning is in strictly ascending order, and consists of the names that begin with it and whose
    command is no admin command. -/
theorem Registry.dispatch_gate (cs : List Command) :
    (∀ argv,
      (∃ c args, Runs cs argv c args ∧
        (∀ c' args', Runs cs argv c' args' → c' = c ∧ args' = args) ∧
        (∀ env, (ofList cs).dispatch argv env =
          (.ofResult ((c.run args).outcome env).1, ((c.run args).outcome env).2)) ∧
        ∀ note env, (ofList (cs.map (.noted note))).dispatch argv env =
          (ofList cs).dispatch argv (note c args env)) ∨
      (∀ c args, ¬Runs cs argv c args) ∧ ∃ answer, TurnedAway cs argv answer ∧
        (∀ env, (ofList cs).dispatch argv env = (answer, env)) ∧
        ∀ note env, (ofList (cs.map (.noted note))).dispatch argv env = (answer, env)) ∧
    ∀ start, ((ofList cs).completions start).Pairwise (· < ·) ∧
      ∀ name, name ∈ (ofList cs).completions start ↔ ∃ c, Registered cs name c ∧
        c.category ≠ "admin" ∧ ∃ rest, name = start ++ rest := by
  refine ⟨fun argv => ?_, fun start => ⟨ascending_completions cs start,
    fun name => mem_completions_iff⟩⟩
  rcases runs_or_turnedAway cs argv with ⟨c, args, hruns⟩ | ⟨answer, haway⟩
  · refine .inl ⟨c, args, hruns, fun _ _ => hruns.unique, hruns.dispatch, fun note env => ?_⟩
    rw [(hruns.noted note).dispatch, hruns.dispatch, c.outcome_noted]
  · exact .inr ⟨haway.not_runs, answer, haway, haway.dispatch,
      fun note => (haway.noted note).dispatch⟩

/-- The one registered last counts, even if its range turns everything away. -/
example (env : Environment) :
    (Registry.ofList [{ name := "x", run := fun _ => return .clear },
      { name := "x", minArgs := 2, maxArgs := 1, run := fun _ => return .none }]).dispatch
        ["x", "-"] env = (.text "x: missing file operand", env) := by
  rfl

end TreeShell
