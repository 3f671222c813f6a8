import TreeShell.Proofs.Snapshot.Literal
import TreeShell.Proofs.Snapshot.Numeral

/-!
# Documents as They Are Written

A JSON document is a tree of values, and one tree can be written in many ways: with blanks before
every token, and with the characters of its keys spelled one way or another. `Json.Spelled` says
which texts are written forms of which tree. It is the whole grammar of the format, given without
regard to how it is read. The keys of a document are texts, so each pair of code units in them is
complete. What its numbers and its other strings say is kept as it is written, since no reader here
makes anything of it.

Each written form of a value includes the blanks before it, and the blanks after it belong to the
comma or to the bracket that comes next.

## Main definitions

* `Snapshot.Json`, `Snapshot.Items`, `Snapshot.Members`: A document, its arrays and its objects.
* `Json.Spelled`, `Items.Spelled`, `Members.Spelled`: The written forms.
* `Json.Document`: A text that is a written form and nothing else.

## Theorems

* `Json.Spelled.head`: No value begins like the end of an array.
* `Items.Spelled.stops`, `Members.Spelled.stops`: After a value no number can go on.
-/

namespace TreeShell.Snapshot

mutual

/-- A value of a document. -/
inductive Json where
  | null
  | bool (value : Bool)
  /-- A number, as it is written. -/
  | number (digits : List Char)
  /-- A string, as it is written between its quotes. -/
  | string (raw : List Char)
  | array (items : Items)
  | object (members : Members)

/-- The values of an array, in order. -/
inductive Items where
  | nil
  | cons (value : Json) (rest : Items)

/-- The members of an object, in order. A key may come more than once. -/
inductive Members where
  | nil
  | cons (key : String) (value : Json) (rest : Members)

end

/-- What stands before an item: a comma, unless it is the first one. -/
inductive Separator : Bool → List Char → Prop where
  | first : Separator true []
  | next {b : List Char} (hb : Blanks b) : Separator false (b ++ [','])

mutual

/-- `j.Spelled cs`: one way to write `j`, blanks before it included. -/
inductive Json.Spelled : Json → List Char → Prop where
  | null {b : List Char} (hb : Blanks b) : Json.Spelled .null (b ++ ['n', 'u', 'l', 'l'])
  | yes {b : List Char} (hb : Blanks b) : Json.Spelled (.bool true) (b ++ ['t', 'r', 'u', 'e'])
  | no {b : List Char} (hb : Blanks b) :
      Json.Spelled (.bool false) (b ++ ['f', 'a', 'l', 's', 'e'])
  | number {b n : List Char} (hb : Blanks b) (h : Number n) : Json.Spelled (.number n) (b ++ n)
  | string {b raw : List Char} (hb : Blanks b) (h : Literal raw) :
      Json.Spelled (.string raw) (b ++ '"' :: (raw ++ ['"']))
  | array {items : Items} {b cs : List Char} (hb : Blanks b) (h : Items.Spelled items true cs) :
      Json.Spelled (.array items) (b ++ '[' :: cs)
  | object {members : Members} {b cs : List Char} (hb : Blanks b)
      (h : Members.Spelled members true cs) : Json.Spelled (.object members) (b ++ '{' :: cs)

/-- The items that are left of an array, and its end. The flag says whether the next one is the
    first. -/
inductive Items.Spelled : Items → Bool → List Char → Prop where
  | nil {first : Bool} {b : List Char} (hb : Blanks b) : Items.Spelled .nil first (b ++ [']'])
  | cons {value : Json} {rest : Items} {first : Bool} {sep v cs : List Char}
      (hsep : Separator first sep) (hvalue : Json.Spelled value v)
      (hrest : Items.Spelled rest false cs) :
      Items.Spelled (.cons value rest) first (sep ++ (v ++ cs))

/-- The members that are left of an object, and its end. -/
inductive Members.Spelled : Members → Bool → List Char → Prop where
  | nil {first : Bool} {b : List Char} (hb : Blanks b) : Members.Spelled .nil first (b ++ ['}'])
  | cons {key : String} {value : Json} {rest : Members} {first : Bool}
      {sep b k b' v cs : List Char} (hsep : Separator first sep) (hb : Blanks b)
      (hkey : Key key.toList k) (hb' : Blanks b') (hvalue : Json.Spelled value v)
      (hrest : Members.Spelled rest false cs) :
      Members.Spelled (.cons key value rest) first
        (sep ++ (b ++ '"' :: (k ++ '"' :: (b' ++ ':' :: (v ++ cs)))))

end

/-- `j.Document text`: the text is a document, with blanks after it and nothing else. -/
def Json.Document (j : Json) (text : String) : Prop :=
  ∃ cs b, j.Spelled cs ∧ Blanks b ∧ text.toList = cs ++ b

theorem isSpace_of_begins {c : Char} (hc : c = '-' ∨ c.isDigit) : isSpace c = false := by
  have hblank : ∀ d ∈ [' ', '\t', '\n', '\r'], c ≠ d := by
    simp only [List.forall_mem_cons]
    refine ⟨?_, ?_, ?_, ?_, fun _ h => by cases h⟩ <;> exact ne_of_begins hc (by decide)
  simpa [isSpace, and_assoc] using hblank

/-- No value begins like the end of an array. -/
theorem Json.Spelled.head {j : Json} {cs : List Char} (h : j.Spelled cs) (r : List Char) :
    ∃ c t, skipSpace (cs ++ r) = c :: t ∧ c ≠ ']' := by
  have hbegins : ∃ b c t, Blanks b ∧ cs = b ++ c :: t ∧ isSpace c = false ∧ c ≠ ']' := by
    cases h with
    | null hb => exact ⟨_, _, _, hb, rfl, rfl, by decide⟩
    | yes hb => exact ⟨_, _, _, hb, rfl, rfl, by decide⟩
    | no hb => exact ⟨_, _, _, hb, rfl, rfl, by decide⟩
    | number hb h =>
        rcases h.head with ⟨c, t, rfl, hc⟩
        exact ⟨_, _, _, hb, rfl, isSpace_of_begins hc, ne_of_begins hc (by decide)⟩
    | string hb => exact ⟨_, _, _, hb, rfl, rfl, by decide⟩
    | array hb => exact ⟨_, _, _, hb, rfl, rfl, by decide⟩
    | object hb => exact ⟨_, _, _, hb, rfl, rfl, by decide⟩
  rcases hbegins with ⟨b, c, t, hb, rfl, hspace, hc⟩
  rw [List.append_assoc, skipSpace_blanks hb, List.cons_append, skipSpace_cons hspace]
  exact ⟨c, t ++ r, rfl, hc⟩

theorem stops_blanks {b r : List Char} (hb : Blanks b) (hr : Stops r) : Stops (b ++ r) := by
  rcases b with _ | ⟨c, b⟩
  · exact hr
  · have hc : c = ' ' ∨ c = '\t' ∨ c = '\n' ∨ c = '\r' := by
      simpa [isSpace, or_assoc] using hb c List.mem_cons_self
    refine stops_cons ?_ (b ++ r)
    rcases hc with rfl | rfl | rfl | rfl <;> decide

/-- Nothing stands after the blanks at the end of a document. -/
theorem stops_end {b : List Char} (hb : Blanks b) : Stops b := by
  rw [← List.append_nil b]
  exact stops_blanks hb fun _ h => by cases h

theorem Separator.stops {sep : List Char} (h : Separator false sep) (r : List Char) :
    Stops (sep ++ r) := by
  cases h with
  | next hb =>
      rw [List.append_assoc]
      exact stops_blanks hb (stops_cons (by decide) r)

/-- After an item comes a comma or the end of the array. -/
theorem Items.Spelled.stops {items : Items} {cs : List Char} (h : items.Spelled false cs)
    (r : List Char) : Stops (cs ++ r) := by
  cases h with
  | nil hb =>
      rw [List.append_assoc]
      exact stops_blanks hb (stops_cons (by decide) r)
  | cons hsep =>
      rw [List.append_assoc]
      exact hsep.stops _

/-- After a member comes a comma or the end of the object. -/
theorem Members.Spelled.stops {members : Members} {cs : List Char} (h : members.Spelled false cs)
    (r : List Char) : Stops (cs ++ r) := by
  cases h with
  | nil hb =>
      rw [List.append_assoc]
      exact stops_blanks hb (stops_cons (by decide) r)
  | cons hsep =>
      rw [List.append_assoc]
      exact hsep.stops _

end TreeShell.Snapshot
