import TreeShell.Proofs.Tree.Everywhere
import TreeShell.Tree.Update

/-!
# Replacing a Directory

A build fills directories that it planted empty, and each time it walks there from the root. Where
the directory is known to be there, the walk is no more than a replacement: nothing is created on
the way, and nothing but the directory changes. The laws here are those of reading and replacing at
a path, and one about a path that goes on below a replaced directory (`replaceAt_append`), by which
a change further down becomes a change of the directory above it.

The directories that are filled stand in the middle of a level whose entries all have different
names. `prepend` splits such a level in front of the entry that is looked at.

## Main definitions

* `Dir.replaceAt`: A tree with other entries in one of its directories.
* `Dir.prepend`: A directory with entries in front of its own.

## Theorems

* `Dir.update_eq_replaceAt`: A walk to a directory that is there replaces it.
* `Dir.dirAt?_replaceAt`, `Dir.replaceAt_replaceAt`, `Dir.replaceAt_append`: The laws of replacing.
* `Dir.find?_prepend_entry`, `Dir.replaceAt_prepend_entry`: The entry behind those in front.
-/

namespace TreeShell.Dir

/-- The tree with `entries` for those of the directory at `segments`. -/
def replaceAt (root : Dir) (segments : List String) (entries : Dir) : Dir :=
  (root.update (fun _ => entries) segments).1

/-- `d` with entries in front of its own. -/
def prepend (before : List (String × Node)) (d : Dir) : Dir :=
  before.foldr (fun e d => .entry e.1 e.2 d) d

/-- Replacing below an entry is writing that entry. -/
theorem replaceAt_cons {root child : Dir} {name : String} (h : root.find? name = some (.dir child))
    (rest : List String) (entries : Dir) :
    root.replaceAt (name :: rest) entries =
      root.insert name (.dir (child.replaceAt rest entries)) := by
  simp only [replaceAt, update, h]

section Place

variable {root here : Dir} {segments : List String} (h : root.dirAt? segments = some here)

include h

/-- A walk to a directory that is there arrives, and replaces it. -/
theorem update_eq_replaceAt (change : Dir → Dir) :
    root.update change segments = (root.replaceAt segments (change here), true) := by
  induction segments generalizing root with
  | nil =>
      rw [dirAt?_nil, Option.some.injEq] at h
      rw [h]
      rfl
  | cons name rest ih =>
      rcases dirAt?_cons_eq_some_iff.1 h with ⟨child, hfind, hchild⟩
      simp only [update, hfind]
      rw [ih hchild, replaceAt_cons hfind]

/-- What was put in place is found there. -/
theorem dirAt?_replaceAt (entries : Dir) :
    (root.replaceAt segments entries).dirAt? segments = some entries := by
  induction segments generalizing root with
  | nil => exact dirAt?_nil entries
  | cons name rest ih =>
      rcases dirAt?_cons_eq_some_iff.1 h with ⟨child, hfind, hchild⟩
      rw [replaceAt_cons hfind, dirAt?_cons_eq_some_iff]
      exact ⟨_, find?_insert_self name _ root, ih hchild⟩

/-- Of two replacements the later one counts. -/
theorem replaceAt_replaceAt (first second : Dir) :
    (root.replaceAt segments first).replaceAt segments second = root.replaceAt segments second := by
  induction segments generalizing root with
  | nil => rfl
  | cons name rest ih =>
      rcases dirAt?_cons_eq_some_iff.1 h with ⟨child, hfind, hchild⟩
      rw [replaceAt_cons hfind, replaceAt_cons (find?_insert_self name _ root), insert_insert,
        ih hchild, replaceAt_cons hfind]

/-- A replacement below a directory replaces that directory by the changed one. -/
theorem replaceAt_append (more : List String) (entries : Dir) :
    root.replaceAt (segments ++ more) entries =
      root.replaceAt segments (here.replaceAt more entries) := by
  induction segments generalizing root with
  | nil =>
      rw [dirAt?_nil, Option.some.injEq] at h
      rw [h]
      rfl
  | cons name rest ih =>
      rcases dirAt?_cons_eq_some_iff.1 h with ⟨child, hfind, hchild⟩
      rw [List.cons_append, replaceAt_cons hfind, replaceAt_cons hfind, ih hchild]

end Place

theorem toList_prepend (before : List (String × Node)) (d : Dir) :
    (d.prepend before).toList = before ++ d.toList := by
  induction before with
  | nil => rfl
  | cons e before ih =>
      rw [prepend, List.foldr_cons, toList_entry, ← prepend, ih]
      rfl

theorem prepend_append (first more : List (String × Node)) (d : Dir) :
    d.prepend (first ++ more) = (d.prepend more).prepend first := by
  rw [prepend, prepend, prepend, List.foldr_append]

section Entry

variable {before : List (String × Node)} {name : String} (h : name ∉ before.map Prod.fst)

include h

/-- The entry behind those in front is found under its name, if none of them has it. -/
theorem find?_prepend_entry (node : Node) (rest : Dir) :
    ((entry name node rest).prepend before).find? name = some node := by
  induction before with
  | nil => rw [prepend, List.foldr_nil, find?, if_pos rfl]
  | cons e before ih =>
      rw [List.map_cons, List.mem_cons, not_or] at h
      rw [prepend, List.foldr_cons, find?, if_neg (Ne.symm h.1)]
      exact ih h.2

/-- A write of its name lands on it. -/
theorem insert_prepend_entry (old node : Node) (rest : Dir) :
    ((entry name old rest).prepend before).insert name node =
      (entry name node rest).prepend before := by
  induction before with
  | nil => rw [prepend, List.foldr_nil, insert, if_pos rfl, prepend, List.foldr_nil]
  | cons e before ih =>
      rw [List.map_cons, List.mem_cons, not_or] at h
      rw [prepend, List.foldr_cons, insert, if_neg (Ne.symm h.1)]
      exact congrArg (entry e.1 e.2) (ih h.2)

/-- So does a replacement of the directory that it is. -/
theorem replaceAt_prepend_entry (old entries rest : Dir) :
    ((entry name (.dir old) rest).prepend before).replaceAt [name] entries =
      (entry name (.dir entries) rest).prepend before := by
  rw [replaceAt_cons (find?_prepend_entry h _ rest), insert_prepend_entry h]
  rfl

end Entry

end TreeShell.Dir
