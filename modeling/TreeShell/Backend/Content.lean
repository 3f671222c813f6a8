import TreeShell.Backend.Repository
import TreeShell.Backend.Storage
import TreeShell.Service.Image

/-!
# The Content Provider

Everything the shell shows that is not in the tree comes from one provider, which stands before both
backends. A provider is described by its answers alone: what it answers to a request may depend on
everything it was asked before, and nothing more is assumed of it. The requests are recorded in the
order in which they are made, refused ones included.

## Main definitions

* `Place`: Where the contents of a file are kept.
* `Request`, `Request.Answer`: What can be asked, and the type of the answer.
* `Content`: A provider.
* `Traffic`: The requests made so far and the time spent waiting for them.
* `Content.refusing`: The provider that turns some requests away.
* `Content.ask`: Make a request.
* `Content.storageTree`: The tree grown from the listings.
-/

namespace TreeShell

/-- Where the contents of a file are kept. -/
inductive Place where
  /-- In object storage, under a key. -/
  | storage (key : String)
  /-- In the repository, at a path below its root. -/
  | repository (path : String)
  deriving DecidableEq, Repr

/-- What a provider can be asked. -/
inductive Request where
  /-- One level of object storage. -/
  | listing (under : String)
  /-- The whole tree of a user's repository. -/
  | repositoryTree (user repo : String)
  /-- The contents of a text file. -/
  | text (place : Place)
  /-- The contents of an image file. -/
  | image (place : Place)
  deriving DecidableEq, Repr

/-- The type of the answer to a request. -/
def Request.Answer : Request → Type
  | .listing _ => List StorageEntry
  | .repositoryTree _ _ => Dir
  | .text _ => String
  | .image _ => Image

/-- A provider of listings and file contents. -/
structure Content where
  /-- The answer to a request after the requests made before it. -/
  answer : List Request → (r : Request) → Except Fault r.Answer
  /-- How long the request takes, in milliseconds. -/
  delay : List Request → Request → Nat

/-- What has gone to and fro between the shell and its provider. -/
structure Traffic where
  /-- The requests in the order they were made. -/
  requests : List Request := []
  /-- The milliseconds spent waiting. -/
  waited : Nat := 0

namespace Content

/-- The provider that turns away the requests for which `refusal` gives a reason, at once, and
    leaves the others to `c`. -/
def refusing (c : Content) (refusal : Request → Option Fault) : Content where
  answer past r := match refusal r with
    | some fault => .error fault
    | none => c.answer past r
  delay past r := if (refusal r).isSome then 0 else c.delay past r

/-- Make a request. -/
def ask (c : Content) (r : Request) : Asking Traffic r.Answer := fun traffic =>
  (c.answer traffic.requests r,
    ⟨traffic.requests ++ [r], traffic.waited + c.delay traffic.requests r⟩)

/-- The tree grown from the provider's listings; nothing if they never end. -/
def storageTree (c : Content) (traffic : Traffic) : Option (Except Fault Dir × Traffic) :=
  TreeShell.storageTree (fun under => c.ask (.listing under)) traffic

end Content

end TreeShell
