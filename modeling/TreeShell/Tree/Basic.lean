/-!
# The File Tree

A tree of names with access marks: a readable directory shows its entries, a denied one exists but
shows nothing, and a file is readable or not. Entries keep the order in which they were first
inserted, because listings, stored snapshots and completion all show it.

A directory is a spine inside the same inductive type as its nodes. That makes every function over
whole trees a structural recursion; `Dir.toList` is the view that forgets the spine.

## Main definitions

* `Node`, `Dir`: A node, and the entries of a readable directory.
* `Dir.toList`, `Dir.names`: The entries in order.
* `Dir.find?`: The node under a name.
* `Dir.insert`: Write a name; an existing one keeps its place.
* `Dir.replace`: Write a name only where it exists.

## Theorems

* `Dir.find?_insert_self`, `Dir.find?_insert_of_ne`: A write is read back, and only under its name.
* `Dir.insert_insert`: Of two writes of one name the later one counts.
* `Dir.names_insert`: A write moves no name, and adds its own at the end if it is new.
-/

namespace TreeShell

mutual

/-- A node of the tree. -/
inductive Node where
  /-- A readable directory. -/
  | dir (entries : Dir)
  /-- A directory that exists but can be neither entered nor listed. -/
  | denied
  /-- A regular file. -/
  | file (readable : Bool)

/-- The entries of a readable directory, in the order of their first insertion. -/
inductive Dir where
  | empty
  | entry (name : String) (node : Node) (rest : Dir)

end

deriving instance DecidableEq for Node, Dir
deriving instance Repr for Node, Dir

instance : Inhabited Dir := ⟨.empty⟩

namespace Node

/-- Whether listings mark the node as a directory. -/
def isDir : Node → Bool
  | .dir _ => true
  | .denied => true
  | .file _ => false

end Node

namespace Dir

/-- The entries in order. -/
def toList : Dir → List (String × Node)
  | .empty => []
  | .entry name node rest => (name, node) :: rest.toList

/-- The names in order. -/
def names (d : Dir) : List String := d.toList.map Prod.fst

/-- The number of entries. -/
def size (d : Dir) : Nat := d.toList.length

/-- The node under `name`. -/
def find? (name : String) : Dir → Option Node
  | .empty => none
  | .entry n node rest => if n = name then some node else rest.find? name

/-- Write `node` under `name`. An existing entry keeps its place; a new one goes last. -/
def insert (name : String) (node : Node) : Dir → Dir
  | .empty => .entry name node .empty
  | .entry n old rest =>
    if n = name then .entry n node rest else .entry n old (rest.insert name node)

/-- Put `node` in the place of what stands under `name`, if anything does. -/
def replace (name : String) (node : Node) : Dir → Dir
  | .empty => .empty
  | .entry n old rest =>
    if n = name then .entry n node rest else .entry n old (rest.replace name node)

/-- The directory made by writing the entries one after the other. -/
def ofList (entries : List (String × Node)) : Dir :=
  entries.foldl (fun d e => d.insert e.1 e.2) .empty

@[simp] theorem toList_empty : empty.toList = [] := rfl

@[simp] theorem toList_entry (name : String) (node : Node) (rest : Dir) :
    (entry name node rest).toList = (name, node) :: rest.toList := rfl

@[simp] theorem find?_insert_self (name : String) (node : Node) (d : Dir) :
    (d.insert name node).find? name = some node := by
  induction d using Dir.rec (motive_1 := fun _ => True) with
  | empty => simp [insert, find?]
  | entry n old rest _ ih => by_cases h : n = name <;> simp [insert, find?, h, ih]
  | _ => trivial

theorem find?_insert_of_ne {name other : String} (hne : other ≠ name) (node : Node) (d : Dir) :
    (d.insert name node).find? other = d.find? other := by
  induction d using Dir.rec (motive_1 := fun _ => True) with
  | empty => simp [insert, find?, Ne.symm hne]
  | entry n old rest _ ih =>
    by_cases h : n = name
    · simp [insert, find?, h, Ne.symm hne]
    · simp [insert, find?, h, ih]
  | _ => trivial

/-- Of two writes of one name the later one counts. -/
theorem insert_insert (name : String) (first second : Node) (d : Dir) :
    (d.insert name first).insert name second = d.insert name second := by
  induction d using Dir.rec (motive_1 := fun _ => True) with
  | empty => simp only [insert, if_true]
  | entry n old rest _ ih => by_cases h : n = name <;> simp [insert, h, ih]
  | _ => trivial

theorem names_insert (name : String) (node : Node) (d : Dir) :
    (d.insert name node).names = if name ∈ d.names then d.names else d.names ++ [name] := by
  induction d using Dir.rec (motive_1 := fun _ => True) with
  | empty => simp [insert, names]
  | entry n old rest _ ih =>
    by_cases h : n = name
    · simp [insert, names, h]
    · simp only [names] at ih
      by_cases hm : name ∈ rest.toList.map Prod.fst
      · simp [insert, names, h, ih, hm]
      · simp [insert, names, h, ih, hm, Ne.symm h]
  | _ => trivial

/-- A write keeps the names distinct. -/
theorem nodup_names_insert {d : Dir} (h : d.names.Nodup) (name : String) (node : Node) :
    (d.insert name node).names.Nodup := by
  rw [names_insert]
  split
  · exact h
  · rename_i hn
    exact List.nodup_append.2 ⟨h, by simp, by
      intro a ha b hb hab
      rw [List.mem_singleton] at hb
      exact hn (hb ▸ hab ▸ ha)⟩

end Dir

end TreeShell
