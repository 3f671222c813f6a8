import TreeShell.Tree.Grow

/-!
# The Repository

A repository answers with the id of its latest commit and, id by id, with one level of a tree. It
knows no access: every file in it is readable. One id may stand in several places and is then asked
for in each of them, and the answers need not be alike: a request may be refused that was granted
before. The interface of a repository allows only so many requests, so the walk pauses before each
one but the first. A repository without a commit is an empty tree and no failure.

## Main definitions

* `RepoEntry`: One entry of a tree of the repository.
* `Repository`: What a repository answers.
* `WalkStep`, `Walk`: What a walk does, and what it has done, in order.
* `Walk.fetched`, `Walk.pauses`: The ids asked for, and how long the pauses were to last.
* `Repository.tree`: The tree of the latest commit, and the walk to it.
-/

namespace TreeShell

/-- What a tree of the repository holds. -/
inductive RepoKind where
  | blob
  | tree
  deriving DecidableEq, Repr

/-- One entry of a tree of the repository. -/
structure RepoEntry where
  kind : RepoKind
  name : String
  /-- The id of the entry's own object. -/
  id : String
  deriving DecidableEq, Repr

/-- The entry of a level. -/
def RepoEntry.sprout (e : RepoEntry) : Sprout String :=
  match e.kind with
  | .blob => .leaf e.name (.file true)
  | .tree => .branch e.name e.id

/-- What a repository answers. -/
structure Repository where
  /-- The id of the latest commit's tree. -/
  head : Except Fault String
  /-- One level of the tree with an id, after the ids asked for before. -/
  level : List String → String → Except Fault (List RepoEntry)

/-- What a walk does. -/
inductive WalkStep where
  /-- Pause; the pause is to last so many milliseconds. -/
  | pause (length : Nat)
  /-- Ask for the tree with an id. -/
  | fetch (id : String)
  deriving DecidableEq, Repr

/-- What a walk has done so far. -/
structure Walk where
  /-- The pauses and the requests, in order. -/
  steps : List WalkStep := []
  deriving DecidableEq, Repr

/-- The id that a step asks for. -/
def WalkStep.id? : WalkStep → Option String
  | .pause _ => none
  | .fetch id => some id

/-- How long a pause is to last. -/
def WalkStep.pause? : WalkStep → Option Nat
  | .pause length => some length
  | .fetch _ => none

/-- The ids asked for, in order. -/
def Walk.fetched (walk : Walk) : List String := walk.steps.filterMap WalkStep.id?

/-- How long the pauses of a walk were to last, in order. -/
def Walk.pauses (walk : Walk) : List Nat := walk.steps.filterMap WalkStep.pause?

namespace Repository

/-- Ask for the level with an id: pause first, unless nothing was asked for yet or the pause has no
    length. -/
def ask (r : Repository) (pacing : Nat) (id : String) : Asking Walk (List (Sprout String)) :=
  fun walk =>
    let pause := if walk.steps = [] ∨ pacing = 0 then [] else [.pause pacing]
    ((r.level walk.fetched id).map (List.map RepoEntry.sprout),
      ⟨walk.steps ++ pause ++ [.fetch id]⟩)

/-- The tree of the latest commit, with pauses of `pacing` milliseconds, and the walk to it; nothing
    if the walk never ends. -/
def tree (r : Repository) (pacing : Nat) : Option (Except Fault Dir × Walk) :=
  match r.head with
  | .error _ => some (.ok .empty, {})
  | .ok id => grow (r.ask pacing) [(id, [])] .empty {}

end Repository

end TreeShell
