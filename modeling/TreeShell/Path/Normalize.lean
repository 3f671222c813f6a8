import TreeShell.Path.Basic
import TreeShell.Text.Split

/-!
# Reading Typed Paths

A typed path is cut at its slashes and replayed, piece by piece, on a stack of segments. What comes
before the first slash decides where the replay begins: nothing means the root, `~` means home, and
anything else is the first step from the working directory. The starting segments are replayed by
the same rule as the typed ones, so a working directory that was set without going through typed
text is cleaned on the way.

## Main definitions

* `Path.step`: One piece replayed on the stack.
* `Path.start`: The pieces that stand for what comes before the first slash.
* `Path.normalize`: The path a typed text names.

## Theorems

* `Path.mem_foldl_step`: A replay leaves what was there before, and pieces that entered.
* `Path.normalize_ordinary`: Typed text can only name ordinary paths.
-/

namespace TreeShell.Path

/-- Replay one piece: an empty piece and `.` stay, `..` leaves the last segment, and any other piece
    enters. Leaving the root stays at the root. -/
def step (stack : List String) (piece : String) : List String :=
  if piece = "" ∨ piece = "." then stack
  else if piece = ".." then stack.dropLast
  else stack ++ [piece]

/-- The pieces that stand for what was typed before the first slash. -/
def start (cwd home : Path) (first : String) : List String :=
  if first = "" then []
  else if first = "~" then home.segments
  else cwd.segments ++ [first]

/-- The path that `input` names, typed in `cwd` by a user whose home is `home`. -/
def normalize (cwd home : Path) (input : String) : Path :=
  let pieces := Text.split '/' input
  ⟨(start cwd home (pieces.headD "") ++ pieces.tail).foldl step []⟩

/-- Any other piece enters. -/
theorem step_of_ne {piece : String} (hempty : piece ≠ "") (hdot : piece ≠ ".")
    (hdots : piece ≠ "..") (stack : List String) : step stack piece = stack ++ [piece] := by
  rw [step, if_neg (fun he => he.elim hempty hdot), if_neg hdots]

/-- What is on the stack after a step was there before, or is the piece and no step of its own. -/
theorem mem_step {s piece : String} {stack : List String} (h : s ∈ step stack piece) :
    s ∈ stack ∨ s = piece ∧ s ≠ "" ∧ s ≠ "." ∧ s ≠ ".." := by
  unfold step at h
  split at h
  · exact .inl h
  · split at h
    · exact .inl (List.dropLast_subset _ h)
    · rename_i hstay hleave
      rcases List.mem_append.1 h with h | h
      · exact .inl h
      · obtain rfl : s = piece := List.mem_singleton.1 h
        exact .inr ⟨rfl, fun he => hstay (.inl he), fun he => hstay (.inr he), hleave⟩

/-- So what any number of pieces leave was there before, or is one of them. -/
theorem mem_foldl_step {s : String} {pieces stack : List String}
    (h : s ∈ pieces.foldl step stack) :
    s ∈ stack ∨ s ∈ pieces ∧ s ≠ "" ∧ s ≠ "." ∧ s ≠ ".." := by
  induction pieces generalizing stack with
  | nil => exact .inl h
  | cons piece pieces ih =>
    rcases ih h with hs | ⟨hs, hname⟩
    · rcases mem_step hs with hs | ⟨rfl, hname⟩
      · exact .inl hs
      · exact .inr ⟨List.mem_cons_self, hname⟩
    · exact .inr ⟨List.mem_cons_of_mem _ hs, hname⟩

/-- The stack that is left holds ordinary names only, if no piece has a slash in it. -/
theorem foldl_step_ordinary {pieces stack : List String} (hpieces : ∀ p ∈ pieces, '/' ∉ p.toList)
    (h : ∀ s ∈ stack, OrdinaryName s) : ∀ s ∈ pieces.foldl step stack, OrdinaryName s := by
  intro s hs
  rcases mem_foldl_step hs with hs | ⟨hs, hempty, hdot, hdots⟩
  · exact h s hs
  · exact ⟨hempty, hpieces s hs, hdot, hdots⟩

/-- Typed text can only name ordinary paths. Only the slash has to be kept out of the segments of
    the two directories the text may start from: everything else is cleaned by the replay. -/
theorem normalize_ordinary {cwd home : Path} (hcwd : ∀ s ∈ cwd.segments, '/' ∉ s.toList)
    (hhome : ∀ s ∈ home.segments, '/' ∉ s.toList) (input : String) :
    (normalize cwd home input).Ordinary := by
  have hpieces : ∀ p ∈ Text.split '/' input, '/' ∉ p.toList := fun _ => Text.not_mem_of_mem_split
  have hfirst : '/' ∉ ((Text.split '/' input).headD "").toList := by
    cases h : Text.split '/' input with
    | nil => exact absurd h (Text.split_ne_nil _ _)
    | cons first rest => exact hpieces first (h ▸ List.mem_cons_self)
  refine foldl_step_ordinary (fun p hp => ?_) (by simp)
  rcases List.mem_append.1 hp with hp | hp
  · -- The starting pieces come from one of the two directories, or are what was typed first.
    unfold start at hp
    split at hp
    · simp at hp
    · split at hp
      · exact hhome p hp
      · rcases List.mem_append.1 hp with hp | hp
        · exact hcwd p hp
        · rw [List.mem_singleton.1 hp]
          exact hfirst
  · exact hpieces p (List.mem_of_mem_tail hp)

end TreeShell.Path
