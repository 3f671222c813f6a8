import TreeShell.Fault

/-!
# The Snapshot Store

One text outlives a session: the snapshot of the tree. The store holds it or holds nothing, and
where the store is a file it can also hold bytes that are no text. A store may refuse to load or to
save, and a refused save leaves what was held. The calls are recorded in their order, refused ones
included.

## Main definitions

* `Held`: What a store holds.
* `StoreCall`: What a store is asked to do.
* `Store`: A store with its refusals, and the calls so far.
* `Store.load`, `Store.save`: The operations.

## Theorems

* `Store.save_accepted`, `Store.save_refused`: A save is kept, or changes nothing but the record.
-/

namespace TreeShell

/-- What a store holds. -/
inductive Held where
  | nothing
  | text (snapshot : String)
  /-- Bytes that are not a UTF-8 text. -/
  | bytes (raw : List UInt8)
  deriving DecidableEq, Repr

/-- What a file with some bytes holds. -/
def Held.ofBytes (raw : List UInt8) : Held :=
  match String.fromUTF8? raw.toByteArray with
  | some snapshot => .text snapshot
  | none => .bytes raw

/-- What a store is asked to do. -/
inductive StoreCall where
  | load
  | save (snapshot : String)
  deriving DecidableEq, Repr

/-- The store of the snapshot. -/
structure Store where
  held : Held := .nothing
  /-- The refusal of every load, if loads are refused. -/
  loadFault : Option Fault := none
  /-- The refusal of every save, if saves are refused. -/
  saveFault : Option Fault := none
  /-- The calls in the order they were made. -/
  calls : List StoreCall := []

namespace Store

/-- The store with one more call in its record. -/
def called (s : Store) (call : StoreCall) : Store := { s with calls := s.calls ++ [call] }

/-- The store after it has taken a snapshot. -/
def saved (s : Store) (snapshot : String) : Store :=
  { s.called (.save snapshot) with held := .text snapshot }

/-- The refusal of a store that is told not to save. -/
def saveRejected : Fault := .persistence "save rejected"

/-- What a load finds: the stored snapshot, if there is one. -/
def found (s : Store) : Except Fault (Option String) :=
  match s.loadFault, s.held with
  | some fault, _ => .error fault
  | none, .nothing => .ok none
  | none, .text snapshot => .ok (some snapshot)
  | none, .bytes _ => .error (.file .undecodable)

/-- Load the stored snapshot: what is found, and the store afterwards. -/
def load (s : Store) : Except Fault (Option String) × Store := (s.found, s.called .load)

/-- Save a snapshot: the outcome, and the store afterwards. -/
def save (s : Store) (snapshot : String) : Except Fault Unit × Store :=
  match s.saveFault with
  | some fault => (.error fault, s.called (.save snapshot))
  | none => (.ok (), s.saved snapshot)

theorem save_accepted {s : Store} (h : s.saveFault = none) (snapshot : String) :
    s.save snapshot = (.ok (), s.saved snapshot) := by
  unfold save
  split
  · rename_i hfault
    rw [h] at hfault
    cases hfault
  · rfl

theorem save_refused {s : Store} {fault : Fault} (h : s.saveFault = some fault)
    (snapshot : String) : s.save snapshot = (.error fault, s.called (.save snapshot)) := by
  rw [save, h]

end Store

end TreeShell
