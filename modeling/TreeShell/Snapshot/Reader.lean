import TreeShell.Snapshot.Pass
import TreeShell.Text.Quoted
import TreeShell.Tree.Basic

/-!
# Reading a Stored Tree

An object is a readable directory, `null` a denied one, and a boolean a file, readable or not. An
object that holds the reserved key is a denied directory, whatever it holds after that key: what
stands there is passed over and not decoded. A name that comes twice keeps its first place and its
last node.

Objects may nest to a fixed depth, and the bound is the recursion's own measure. It counts every
object that is decoded, the root included; what is passed over is not counted.

## Main definitions

* `Snapshot.reservedKey`: The key that denies a directory.
* `Snapshot.node`: Scans one node.
* `Snapshot.readNode`, `Snapshot.read`: A text as a node, and as a whole tree.
-/

namespace TreeShell.Snapshot

/-- The key that denies the directory it stands in. -/
def reservedKey : String := ":"

/-- How deep decoded objects may nest. -/
def maxDepth : Nat := 127

/-- The refusal of a value that is no node. -/
def misfit (found : String) : ReadFault :=
  .misfit ("invalid type: " ++ found ++ ", expected an object, null, or a boolean")

/-- What was read of an object so far: the entries, or nothing once the reserved key was met. -/
abbrev Partial := Option Dir

/-- One member, after the quote that opens its key. -/
def member (value : Scanner Node) (acc : Partial) : Scanner Partial := fun s => do
  let (key, s) ← literal s
  let s ← colon s
  match key == reservedKey, acc with
  | false, some entries =>
    let (node, s) ← value s
    return (some (entries.insert key node), s)
  | _, _ => return (none, ← passValue s)

/-- The members from the second on, and the end of the object, in at most `bound` steps. -/
def members (value : Scanner Node) : Nat → Partial → Scanner Node
  | 0, _, _ => .error .truncated
  | bound + 1, acc, s =>
    match skipSpace s with
    | [] => .error .truncated
    | '}' :: rest => .ok ((acc.map Node.dir).getD .denied, rest)
    | ',' :: rest => do
      let (acc, s) ← member value acc (← word ['"'] (skipSpace rest))
      members value bound acc s
    | _ => .error .malformed

/-- An object, after its opening brace. Every member takes one of the characters that are left,
    which bounds the reading. -/
def object (value : Scanner Node) : Scanner Node := fun s =>
  match skipSpace s with
  | '"' :: rest => do
    let (acc, s) ← member value (some .empty) rest
    members value (s.length + 1) acc s
  | [] => .error .truncated
  | '}' :: rest => .ok (.dir .empty, rest)
  | _ => .error .malformed

/-- A node whose object, if it is one, is read by `inner`; without `inner` nothing may nest. -/
def nodeWith (inner : Option (Scanner Node)) : Scanner Node := fun s =>
  match skipSpace s with
  | [] => .error .truncated
  | 'n' :: rest => do return (.denied, ← word ['u', 'l', 'l'] rest)
  | 't' :: rest => do return (.file true, ← word ['r', 'u', 'e'] rest)
  | 'f' :: rest => do return (.file false, ← word ['a', 'l', 's', 'e'] rest)
  | '{' :: rest =>
    match inner with
    | some read => read rest
    | none => .error .malformed
  | '[' :: _ => .error (if inner.isSome then misfit "sequence" else .malformed)
  | '"' :: rest => do
    let (text, _) ← literal rest
    throw (misfit ("string " ++ Text.quoted text))
  | c :: rest =>
    if c = '-' ∨ c.isDigit then do
      let (n, _) ← numeral (c :: rest)
      throw (match n.value? with
        | some quantity => misfit quantity.text
        | none => .malformed)
    else .error .malformed

/-- A node in which objects nest at most `depth` deep. -/
def node : Nat → Scanner Node
  | 0 => nodeWith none
  | depth + 1 => nodeWith (some (object (node depth)))

/-- The node that a text stands for. Only blanks may follow it. -/
def readNode (text : String) : Except ReadFault Node := do
  let (found, rest) ← node maxDepth text.toList
  if (skipSpace rest).isEmpty then return found else throw .malformed

/-- The tree that a text stands for, whose root must be a readable directory. -/
def read (text : String) : Except Fault Dir :=
  match readNode text with
  | .ok (.dir root) => .ok root
  | .ok .denied => .error (.snapshot "root must be a readable directory, found DeniedDir")
  | .ok (.file readable) => .error (.snapshot ("root must be a readable directory, found File \x7b " ++
      "readable: " ++ (if readable then "true" else "false") ++ " \x7d"))
  | .error cause => .error (.reading cause)

end TreeShell.Snapshot
