import TreeShell.Fault

/-!
# Signing In

A user signs in by a link sent to an address. Between the sending and the return the sign-in is
pending, and only the address of the last link that was sent can be completed. Signing out forgets
the user but not a pending sign-in.

## Main definitions

* `Accounts`: Who may do what, who is signed in, and what is pending.
* `Accounts.sendLink`, `Accounts.complete`, `Accounts.signOut`: The operations.

## Theorems

* `Accounts.sendLink_refused`, `Accounts.complete_refused`, `Accounts.signOut_refused`: A refusal
  changes nothing.
-/

namespace TreeShell

/-- The state of the sign-in service. -/
structure Accounts where
  /-- The addresses that may rebuild the tree. -/
  admins : List String := []
  signedIn : Option String := none
  /-- The address whose link may still be followed. -/
  pending : Option String := none
  /-- The links sent, with their addresses, oldest first. -/
  sent : List (String × String) := []
  /-- The refusals of the three operations, if they are refused. -/
  sendFault : Option Fault := none
  completeFault : Option Fault := none
  signOutFault : Option Fault := none

namespace Accounts

/-- Whether an address may rebuild the tree. -/
def isPrivileged (a : Accounts) (email : String) : Bool := a.admins.contains email

/-- Send a link to `address`. -/
def sendLink (a : Accounts) (address link : String) : Except Fault Unit × Accounts :=
  match a.sendFault with
  | some fault => (.error fault, a)
  | none => (.ok (), { a with pending := some address, sent := a.sent ++ [(address, link)] })

/-- Complete the pending sign-in. -/
def complete (a : Accounts) : Except Fault String × Accounts :=
  match a.completeFault, a.pending with
  | some fault, _ => (.error fault, a)
  | none, none => (.error (.identity "no pending sign-in"), a)
  | none, some email => (.ok email, { a with pending := none, signedIn := some email })

/-- Forget the signed-in user. -/
def signOut (a : Accounts) : Except Fault Unit × Accounts :=
  match a.signOutFault with
  | some fault => (.error fault, a)
  | none => (.ok (), { a with signedIn := none })

section Refused

variable {a after : Accounts} {fault : Fault}

theorem sendLink_refused {address link : String}
    (h : a.sendLink address link = (.error fault, after)) : after = a := by
  unfold sendLink at h
  split at h
  · exact (Prod.mk.inj h).2.symm
  · cases h

theorem complete_refused (h : a.complete = (.error fault, after)) : after = a := by
  unfold complete at h
  split at h
  · exact (Prod.mk.inj h).2.symm
  · exact (Prod.mk.inj h).2.symm
  · cases h

theorem signOut_refused (h : a.signOut = (.error fault, after)) : after = a := by
  unfold signOut at h
  split at h
  · exact (Prod.mk.inj h).2.symm
  · cases h

end Refused

end Accounts

end TreeShell
