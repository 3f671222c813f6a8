import TreeShell.Path.Normalize
import TreeShell.Tree.Basic

/-!
# Looking Up Paths

A path is followed name by name through readable directories. A denied directory hides everything
below it: whatever is asked for there is answered by the denial itself, so that a reader cannot
learn by asking what the directory holds. Below a file there is nothing.

Looking up never fails. Absence is an answer, and the path that was asked for comes with it, because
commands name it in their messages.

## Main definitions

* `Node.follow`, `Dir.follow`: The node that a list of segments reaches.
* `Resolved`, `Dir.resolve`: A typed path, and the node it names.

## Theorems

* `Node.follow_append`: Following a path is following its parts in turn.
* `Dir.follow_denied_append`: What was denied stays denied further on.
* `Dir.ne_nil_of_follow_file`: A path that reaches a file has a name.
* `Dir.dirAt?_eq_some_iff`: The readable directory at a path is the node that the path reaches.
* `Dir.dirAt?_cons_eq_some_iff`, `Dir.dirAt?_append`: A directory is found step by step.
-/

namespace TreeShell

/-- The node that `segments` reach from a node. -/
def Node.follow : List String → Node → Option Node
  | [], node => some node
  | _ :: _, .file _ => none
  | _ :: _, .denied => some .denied
  | name :: rest, .dir entries =>
    match entries.find? name with
    | some node => node.follow rest
    | none => none

/-- The node that `segments` reach from the root of a tree. -/
def Dir.follow (segments : List String) (root : Dir) : Option Node :=
  (Node.dir root).follow segments

/-- The readable directory that `segments` reach from the root of a tree. -/
def Dir.dirAt? (segments : List String) (root : Dir) : Option Dir :=
  match root.follow segments with
  | some (.dir entries) => some entries
  | _ => none

/-- A typed path after it was read and looked up. -/
structure Resolved where
  /-- What stands at the path, if anything does. -/
  node : Option Node
  /-- The path that the text names. -/
  path : Path

/-- Read `input`, typed in `cwd`, and look it up from `root`. -/
def Dir.resolve (root : Dir) (cwd home : Path) (input : String) : Resolved :=
  let path := Path.normalize cwd home input
  ⟨root.follow path.segments, path⟩

@[simp] theorem Node.follow_nil (node : Node) : node.follow [] = some node := by
  cases node <;> rfl

@[simp] theorem Node.follow_denied (segments : List String) :
    Node.denied.follow segments = some .denied := by
  cases segments <;> rfl

/-- Following a path is following its first part, and then the rest from the node found there. -/
theorem Node.follow_append (first rest : List String) (node : Node) :
    node.follow (first ++ rest) = (node.follow first).bind (Node.follow rest) := by
  induction first generalizing node with
  | nil => simp
  | cons name more ih =>
    cases node with
    | file => rfl
    | denied => simp
    | dir entries =>
      cases h : entries.find? name with
      | none => simp [Node.follow, h]
      | some child => simp [Node.follow, h, ih]

/-- What was denied stays denied further on. -/
theorem Dir.follow_denied_append {root : Dir} {above : List String}
    (h : root.follow above = some .denied) (rest : List String) :
    root.follow (above ++ rest) = some .denied := by
  rw [follow, Node.follow_append, show (Node.dir root).follow above = some .denied from h,
    Option.bind_some, Node.follow_denied]

/-- The first name of a path leads to an entry of the root, and the rest on from there. -/
theorem Dir.follow_cons (name : String) (rest : List String) (root : Dir) :
    root.follow (name :: rest) = (root.find? name).bind (Node.follow rest) := by
  rw [follow, Node.follow]
  cases root.find? name <;> rfl

/-- The root is no file. -/
theorem Dir.ne_nil_of_follow_file {root : Dir} {segments : List String} {readable : Bool}
    (h : root.follow segments = some (.file readable)) : segments ≠ [] := by
  rintro rfl
  rw [follow, Node.follow_nil] at h
  cases h

/-- The readable directory at a path is the node that the path reaches. -/
theorem Dir.dirAt?_eq_some_iff {root entries : Dir} {segments : List String} :
    root.dirAt? segments = some entries ↔ root.follow segments = some (.dir entries) := by
  unfold dirAt?
  split
  · rename_i found h
    rw [h, Option.some.injEq, Option.some.injEq, Node.dir.injEq]
  · rename_i hother
    exact ⟨fun h => (by cases h), fun h => absurd h (hother entries)⟩

@[simp] theorem Dir.dirAt?_nil (root : Dir) : root.dirAt? [] = some root := by
  rw [dirAt?_eq_some_iff, follow, Node.follow_nil]

/-- The first step towards a readable directory finds one, since nothing else leads further. -/
theorem Dir.dirAt?_cons_eq_some_iff {root entries : Dir} {name : String} {rest : List String} :
    root.dirAt? (name :: rest) = some entries ↔
      ∃ child, root.find? name = some (.dir child) ∧ child.dirAt? rest = some entries := by
  rw [dirAt?_eq_some_iff, follow, Node.follow]
  cases root.find? name with
  | none => simp
  | some node =>
    cases node with
    | dir child => simp [dirAt?_eq_some_iff, follow]
    | denied => simp
    | file => cases rest <;> simp [Node.follow]

theorem Dir.dirAt?_append (first rest : List String) (root : Dir) :
    root.dirAt? (first ++ rest) = (root.dirAt? first).bind (dirAt? rest) := by
  apply Option.ext
  intro entries
  induction first generalizing root with
  | nil => simp
  | cons name more ih =>
    rw [List.cons_append, dirAt?_cons_eq_some_iff, Option.bind_eq_some_iff]
    constructor
    · rintro ⟨child, hfind, hchild⟩
      rw [ih, Option.bind_eq_some_iff] at hchild
      rcases hchild with ⟨middle, hmiddle, hentries⟩
      exact ⟨middle, dirAt?_cons_eq_some_iff.2 ⟨child, hfind, hmiddle⟩, hentries⟩
    · rintro ⟨middle, hmiddle, hentries⟩
      rcases dirAt?_cons_eq_some_iff.1 hmiddle with ⟨child, hfind, hchild⟩
      refine ⟨child, hfind, ?_⟩
      rw [ih, hchild, Option.bind_some, hentries]

end TreeShell
