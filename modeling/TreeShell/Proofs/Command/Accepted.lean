import TreeShell.Command.Builtin

/-!
# What Gets Past the Registry

Every line goes through one gate, so whatever is said of all lines is first a matter of which words
reach which command. What gets past it comes to one of the eleven built-in commands, with a number
of arguments in the range that it declares and, unless it judges options itself, without any. A
statement about all lines is then a statement about eleven commands on those arguments.

Running one command is described here only as far as the file commands share it: the operand of
`cat`, `imgcat` and `open` is looked up in one way, and either names a readable file or ends the
command before anything was asked for.

## Main definitions

* `Output.ofResult`: What is printed of a command's result.
* `Environment.Readable`: An operand names a readable file at a path.

## Theorems

* `Command.refusal?_eq_none_iff`: What the gate lets pass.
* `Registry.dispatch_accepted`: Accepted words run their command.
* `Registry.mem_builtins_of_find?`: A command that is found is one of the built-in ones.
* `Command.outcome_readable`, `Command.outcome_readable_denied`, `Command.readable_cases`: A file's
  operand names a readable file, or ends the command.
-/

namespace TreeShell

/-- `operand` is no option, and names a readable file at `path`. -/
structure Environment.Readable (env : Environment) (operand : String) (path : Path) : Prop where
  plain : isOption operand = false
  found : env.tree.resolve env.cwd env.home operand = ⟨some (.file true), path⟩

/-- What is printed of a command's result: its output, or the line it failed with. -/
def Output.ofResult : Except CommandError Output → Output
  | .ok output => output
  | .error error => .text error.message

/-- The gate lets pass what is within the range, and no option unless the command takes them. -/
theorem Command.refusal?_eq_none_iff {c : Command} {args : List String} :
    c.refusal? args = none ↔ c.minArgs ≤ args.length ∧ args.length ≤ c.maxArgs ∧
      (c.takesOptions = true ∨ ∀ arg ∈ args, isOption arg = false) := by
  unfold refusal?
  by_cases hmax : args.length > c.maxArgs
  · rw [if_pos hmax]
    exact ⟨fun h => (by cases h), fun h => absurd hmax (Nat.not_lt.2 h.2.1)⟩
  · rw [if_neg hmax]
    by_cases hmin : args.length < c.minArgs
    · rw [if_pos hmin]
      exact ⟨fun h => (by cases h), fun h => absurd hmin (Nat.not_lt.2 h.1)⟩
    · rw [if_neg hmin]
      have hrange : c.minArgs ≤ args.length ∧ args.length ≤ c.maxArgs := by omega
      by_cases hoptions : c.takesOptions = true
      · rw [if_pos hoptions]
        exact ⟨fun _ => ⟨hrange.1, hrange.2, .inl hoptions⟩, fun _ => rfl⟩
      · rw [if_neg hoptions, Option.map_eq_none_iff, List.find?_eq_none]
        simp only [hrange, hoptions, false_or, true_and, Bool.not_eq_true, reduceCtorEq]

namespace Registry

/-- Accepted words run their command, and what it fails with is printed. -/
theorem dispatch_accepted {r : Registry} {name : String} {args : List String} {c : Command}
    (hfind : r.find? name = some c) (hgate : c.refusal? args = none) (env : Environment) :
    r.dispatch (name :: args) env =
      (.ofResult ((c.run args).outcome env).1, ((c.run args).outcome env).2) := by
  rw [dispatch]
  simp only [hfind, hgate]
  rcases (c.run args).outcome env with ⟨_ | _, _⟩
  · rfl
  · rfl

/-- The registry of a session holds the built-in commands, the one registered last in front. -/
theorem builtin_commands : builtin.commands = Command.builtins.reverse := rfl

/-- A command that is found is a built-in one, and stands under its own name. -/
theorem mem_builtins_of_find? {name : String} {c : Command} (h : builtin.find? name = some c) :
    c ∈ Command.builtins ∧ c.name = name := by
  rw [find?, builtin_commands] at h
  -- What a search finds is in the list and satisfies what was searched for.
  have hname := List.find?_some h
  exact ⟨List.mem_reverse.1 (List.mem_of_find?_eq_some h), by simpa using hname⟩

end Registry

/-- A command that takes exactly one argument and no option is given one that is none. -/
theorem Command.eq_singleton_of_accepted {c : Command} {args : List String}
    (h : c.refusal? args = none) (hmin : c.minArgs = 1) (hmax : c.maxArgs = 1)
    (hoptions : c.takesOptions = false) : ∃ p, args = [p] ∧ isOption p = false := by
  rcases refusal?_eq_none_iff.1 h with ⟨hge, hle, hplain⟩
  have hlen : args.length = 1 := by omega
  rcases List.length_eq_one_iff.1 hlen with ⟨p, rfl⟩
  rcases hplain with htakes | hplain
  · rw [hoptions] at htakes
    cases htakes
  · exact ⟨p, rfl, hplain p List.mem_cons_self⟩

/-- What becomes of failures does not concern a success. -/
theorem CommandM.mapError_ok {ε ε' α : Type} (f : ε → ε') (a : α) :
    (Except.ok a : Except ε α).mapError f = .ok a := rfl

/-- Only a readable file passes as one. -/
theorem Resolved.requireFile_cases (command name : String) (r : Resolved) :
    r.node = some (.file true) ∨ ∃ e, r.requireFile command name = .error e := by
  rcases r with ⟨node, path⟩
  -- Nothing, a directory, a denied one, a denied file, and at last a readable one.
  rcases node with _ | entries | _ | _ | _
  · exact .inr ⟨_, rfl⟩
  · exact .inr ⟨_, rfl⟩
  · exact .inr ⟨_, rfl⟩
  · exact .inr ⟨_, rfl⟩
  · exact .inl rfl

/-- A readable file is handed on by its path. -/
theorem Command.outcome_readable {env : Environment} {target : String} {path : Path}
    (h : env.tree.resolve env.cwd env.home target = ⟨some (.file true), path⟩) (command : String)
    (named : Bool) : (readable command target named).outcome env = (.ok path, env) := by
  rw [readable, CommandM.outcome_bind, CommandM.outcome_locate, h]
  rfl

/-- One that may not be read is complained about as it was typed. -/
theorem Command.outcome_readable_denied {env : Environment} {target : String} {path : Path}
    (h : env.tree.resolve env.cwd env.home target = ⟨some (.file false), path⟩)
    (command : String) :
    (readable command target false).outcome env = (.error ⟨command, .denied target⟩, env) := by
  rw [readable, CommandM.outcome_bind, CommandM.outcome_locate, h]
  rfl

/-- A file's operand names a readable file, or ends the command where it stands. -/
theorem Command.readable_cases (env : Environment) (command target : String) (named : Bool) :
    (∃ path, env.tree.resolve env.cwd env.home target = ⟨some (.file true), path⟩) ∨
      ∃ e, (readable command target named).outcome env = (.error e, env) := by
  rw [readable, CommandM.outcome_bind, CommandM.outcome_locate]
  simp only [CommandM.outcome_bind, CommandM.outcome_liftM]
  generalize env.tree.resolve env.cwd env.home target = found
  generalize (if named then found.path.text else target) = name
  rcases found.requireFile_cases command name with hnode | ⟨e, herror⟩
  · exact .inl ⟨found.path, by rw [← hnode]⟩
  · exact .inr ⟨e, by rw [herror]⟩

end TreeShell
