import TreeShell.Text.Split
import TreeShell.Tree.Grow

/-!
# Object Storage

Object storage lists one level below a prefix. It knows nothing of access, so access is written into
the names: what follows the first colon of a raw name is a flag, and an empty flag denies. A name
without a colon, or with any other flag, is readable.

The tree is grown from the listings. A readable folder is asked for under the raw names that lead to
it, joined by slashes; a denied one is never asked for.

## Main definitions

* `StorageEntry`: One entry of a listing.
* `StorageEntry.name`, `StorageEntry.readable`: What a raw name says.
* `storageTree`: The tree grown from listings.
-/

namespace TreeShell

/-- What object storage lists. -/
inductive StorageKind where
  /-- A prefix of further names. -/
  | folder
  /-- A stored object. -/
  | object
  deriving DecidableEq, Repr

/-- One entry of a listing, its name as it is stored. -/
structure StorageEntry where
  kind : StorageKind
  raw : String
  deriving DecidableEq, Repr

namespace StorageEntry

/-- The name that is shown: what stands before the first colon. -/
def name (e : StorageEntry) : String := (Text.split ':' e.raw).headD ""

/-- Whether the entry may be read: the flag after the first colon is missing or not empty. -/
def readable (e : StorageEntry) : Bool :=
  match (Text.split ':' e.raw).tail.head? with
  | none => true
  | some flag => flag ≠ ""

/-- The entry as a node; a readable folder comes without its entries. -/
def node (e : StorageEntry) : Node :=
  match e.kind, e.readable with
  | .folder, true => .dir .empty
  | .folder, false => .denied
  | .object, readable => .file readable

/-- The prefix of a folder listed below `under`. -/
def prefixBelow (under raw : String) : String :=
  if under = "" then raw else under ++ "/" ++ raw

/-- The entry of the level below `under`. -/
def sprout (under : String) (e : StorageEntry) : Sprout String :=
  match e.kind, e.readable with
  | .folder, true => .branch e.name (prefixBelow under e.raw)
  | _, _ => .leaf e.name e.node

end StorageEntry

/-- The tree grown from the listings that `list` gives, starting at the empty prefix; nothing if the
    listings never end. -/
def storageTree {σ : Type} (list : String → Asking σ (List StorageEntry)) (s : σ) :
    Option (Except Fault Dir × σ) :=
  let ask (under : String) : Asking σ (List (Sprout String)) := fun s =>
    let (entries, s) := list under s
    (entries.map (List.map (StorageEntry.sprout under)), s)
  grow ask [("", [])] .empty s

end TreeShell
