import Mathlib.Data.List.Fold
import Mathlib.Data.List.MinMax
import Mathlib.Data.List.Nodup
import TreeShell.Backend.Memory
import TreeShell.Proofs.Tree.Census

/-!
# Trees Written into Tables

A tree can be written down as a table of levels, one for each readable directory, and be built from
the table again. Whichever backend is asked, what has to be known of the table is that each level is
found under its key. How much there is in a table is bounded by its longest level.

## Theorems

* `Table.lookup_eq_some_iff`: With distinct keys, what is found under a key is its pair.
* `MemoryContent.get_eq_ok_iff`: A table answers with what is found in it.
* `le_foldl_max`: A maximum bounds what it was taken of.
-/

namespace TreeShell

/-- With distinct keys, what is found under a key is its pair. -/
theorem Table.lookup_eq_some_iff {α : Type} {t : Table α} (h : (t.map Prod.fst).Nodup)
    {key : String} {value : α} : List.lookup key t = some value ↔ (key, value) ∈ t := by
  rw [List.lookup_eq_some_iff]
  constructor
  · rintro ⟨before, later, hsplit, _⟩
    rw [hsplit]
    exact List.mem_append_right _ List.mem_cons_self
  · intro hmem
    rcases List.append_of_mem hmem with ⟨before, later, hsplit⟩
    refine ⟨before, later, hsplit, fun e he => ?_⟩
    -- An earlier pair with that key would make the key stand twice.
    rw [hsplit, List.map_append, List.map_cons, List.nodup_append] at h
    exact bne_iff_ne.2 (Ne.symm (h.2.2 e.1 (List.mem_map_of_mem he) key List.mem_cons_self))

/-- A maximum bounds what it was taken of. -/
theorem le_foldl_max {ns : List Nat} {n : Nat} (h : n ∈ ns) : n ≤ ns.foldl max 0 := by
  rw [List.foldl_eq_foldr]
  exact List.le_max_of_le' 0 h (Nat.le_refl n)

/-- A table answers with what is found in it. -/
theorem MemoryContent.get_eq_ok_iff {α : Type} {what key : String} {t : Table α} {value : α} :
    get what t key = .ok value ↔ List.lookup key t = some value := by
  unfold get
  split
  · rename_i found h
    rw [h, Except.ok.injEq, Option.some.injEq]
  · rename_i h
    rw [h]
    exact ⟨nofun, nofun⟩

end TreeShell
