import TreeShell.Fault
import TreeShell.Tree.Update

/-!
# Growing a Tree Level by Level

Both backends answer one level at a time: a listing gives the entries of one directory and, for each
readable directory among them, a key under which its own entries can be asked for. `grow` asks for
the root's level, plants it, and goes on with the directories that are still empty, the one found
last first. Each backend is then no more than a way to ask.

What a backend answers may depend on what it was asked before, so a way to ask is a function on the
backend's state. A backend may list a directory inside itself, and then there is always something
left to ask for. Such a tree never stops growing and comes to nothing, which is `none`.

## Main definitions

* `Asking`: A request, or several, to a backend with a state.
* `Sprout`: An entry of a level, with the key of its own level if it has one.
* `Dir.plant`: A directory with the entries of a level written into it.
* `grow`: The tree that grows from the keys still to be asked for.
-/

namespace TreeShell

/-- A request, or several: what comes back, and the state of whoever was asked. -/
abbrev Asking (σ α : Type) := σ → Except Fault α × σ

/-- An entry of a level. -/
inductive Sprout (κ : Type) where
  /-- A node that is complete as it is. -/
  | leaf (name : String) (node : Node)
  /-- A readable directory, whose entries are to be asked for under `key`. -/
  | branch (name : String) (key : κ)

namespace Sprout

variable {κ : Type}

/-- The name under which an entry is planted. -/
def name : Sprout κ → String
  | leaf name _ => name
  | branch name _ => name

/-- The node to plant: a branch is planted empty. -/
def node : Sprout κ → Node
  | leaf _ node => node
  | branch _ _ => .dir .empty

/-- The key of a branch with the segments that lead to it from the root. -/
def pending? (segments : List String) : Sprout κ → Option (κ × List String)
  | leaf _ _ => none
  | branch name key => some (key, segments ++ [name])

end Sprout

/-- `d` with the entries of a level written into it, in their order. -/
def Dir.plant {κ : Type} (level : List (Sprout κ)) (d : Dir) : Dir :=
  level.foldl (fun d sprout => d.insert sprout.name sprout.node) d

/-- The tree that grows out of `tree` when the levels of the pending keys are asked for, the head of
    the list first. The branches of a level are asked for before everything that was pending, the
    last one first. A level whose directory has meanwhile been replaced by something else is asked
    for and dropped. The first refusal ends it all. -/
def grow {κ σ : Type} (ask : κ → Asking σ (List (Sprout κ))) (pending : List (κ × List String))
    (tree : Dir) (s : σ) : Option (Except Fault Dir × σ) :=
  match pending with
  | [] => some (.ok tree, s)
  | (key, segments) :: pending =>
    match ask key s with
    | (.error fault, s) => some (.error fault, s)
    | (.ok level, s) =>
      let (tree, arrived) := tree.update (Dir.plant level) segments
      let found := if arrived then level.filterMap (Sprout.pending? segments) else []
      -- As a term, the recursive call would carry its position in the source along with it.
      by
        apply grow
        · exact ask
        · exact found.reverse ++ pending
        · exact tree
        · exact s
partial_fixpoint

end TreeShell
