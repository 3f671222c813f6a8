import TreeShell.Editor.Press

/-!
# Cycling Through Candidates

The completion key is pressed until the right name shows. From the second press on the line is no
longer what the user typed, so each press goes by the text that was there at the first, and by the
place of the next candidate. What it may show is looked up anew, and the list may have changed. A
place behind its end stands for the first candidate again; so with a list that stays the same, the
candidates come round in order.

What a text is completed to is said here without the way it is found. `View.Offers` relates a text
to the part before its last word, the part of that word that is kept, and the candidates; the cuts
are at the last space and at the last slash, and there is one way to make them. A press then does
one of two things, and that is all that is needed about it: it leaves the line alone where nothing
is offered, or it shows an offered name behind what is kept.

## Main definitions

* `Text.CutBehind`: A text cut behind the last occurrence of a separator.
* `folder`, `View.entries`: The directory before a slash, and the names in it to go on with.
* `View.Offers`: What a text is completed to.
* `Editor.begun`: The text that completion goes by, and the place of the next candidate.
* `Editor.tabs`: An editor after presses of the completion key.

## Theorems

* `Text.exists_cutBehind`, `Text.CutBehind.cutLast?`: There is one way to cut.
* `View.mem_entries_iff`: Which names those are.
* `View.Offers.candidates`, `View.exists_offers`: What is offered are the candidates.
* `Editor.complete_eq`, `Editor.tab_eq`: Completion without the way it finds its candidates.
* `Editor.tab_cases`: The two things that a press does.
* `Editor.begun_tabs`: The text that completion goes by stays.
* `Editor.tabs_of_none`, `Editor.tabs_of_some`: What repeated presses come to.
* `Editor.tabs_cases`, `Editor.exists_tabs`: Only offered names show, and all of them do.
* `Editor.tab_cycles`: They go through the candidates, round and round.
-/

namespace TreeShell

namespace Text

/-- `text` is cut behind the last `sep` in it: `kept` ends there, and there is none in `rest`. If
    there is none at all, nothing is kept. -/
structure CutBehind (sep : Char) (text kept rest : String) : Prop where
  eq_append : text = kept ++ rest
  ends : kept = "" ∨ ∃ before, kept = before ++ String.singleton sep
  notMem : sep ∉ rest.toList

/-- A text is cut behind its last separator where it is cut at it, if there is one. -/
theorem CutBehind.cutLast? {sep : Char} {text kept rest : String}
    (h : CutBehind sep text kept rest) :
    (Text.cutLast? sep text.toList = none ∧ kept = "" ∧ rest = text) ∨
      ∃ before : String, Text.cutLast? sep text.toList = some (before.toList, rest.toList) ∧
        kept = before ++ String.singleton sep := by
  rcases h with ⟨rfl, rfl | ⟨before, rfl⟩, hrest⟩
  · rw [String.empty_append]
    exact .inl ⟨cutLast?_eq_none_iff.2 hrest, rfl, rfl⟩
  · refine .inr ⟨before, ?_, rfl⟩
    rw [String.toList_append, String.toList_append, String.toList_singleton, List.append_assoc,
      List.singleton_append]
    exact cutLast?_append_cons hrest

/-- Every text can be cut. -/
theorem exists_cutBehind (sep : Char) (text : String) :
    ∃ kept rest, CutBehind sep text kept rest := by
  cases h : cutLast? sep text.toList with
  | none => exact ⟨"", text, String.empty_append.symm, .inl rfl, cutLast?_eq_none_iff.1 h⟩
  | some cut =>
      rcases cut with ⟨before, after⟩
      rcases cutLast?_eq_some_iff.1 h with ⟨htext, hafter⟩
      refine ⟨String.ofList before ++ String.singleton sep, String.ofList after, ?_,
        .inr ⟨_, rfl⟩, by rwa [String.toList_ofList]⟩
      apply String.toList_injective
      simp [htext]

end Text

/-- The directory that the kept part of a word names: what stands before its last slash, or the
    working directory where nothing is kept. -/
def folder (kept : String) : String :=
  if kept = "" then "." else String.ofList kept.toList.dropLast

theorem folder_behind (before : String) : folder (before ++ String.singleton '/') = before := by
  have hne : before ++ String.singleton '/' ≠ "" := by
    intro hempty
    have hlist := congrArg String.toList hempty
    simp at hlist
  rw [folder, if_neg hne]
  exact String.toList_injective (by simp)

namespace Draft

variable {line head word kept start : String}

theorem ofLine_eq (h : Text.CutBehind ' ' line head word) : ofLine line = ⟨head, word⟩ := by
  rw [ofLine]
  rcases h.cutLast? with ⟨hnone, rfl, rfl⟩ | ⟨before, hsome, rfl⟩
  · rw [hnone]
  · rw [hsome]
    dsimp only
    congr 1
    · exact String.toList_injective (by simp)
    · exact String.ofList_toList

theorem isFirst_iff : (⟨head, word⟩ : Draft).isFirst = true ↔ ∀ c ∈ head.toList, c = ' ' := by
  rw [isFirst, List.all_eq_true]
  simp only [decide_eq_true_eq]

theorem parts_eq (h : Text.CutBehind '/' word kept start) :
    (⟨head, word⟩ : Draft).parts = (folder kept, kept, start) := by
  rw [parts]
  rcases h.cutLast? with ⟨hnone, rfl, rfl⟩ | ⟨before, hsome, rfl⟩
  · rw [hnone]
    rfl
  · have hkept : String.ofList (before.toList ++ ['/']) = before ++ String.singleton '/' :=
      String.toList_injective (by simp)
    rw [hsome, folder_behind]
    simp only [String.ofList_toList, hkept]

end Draft

namespace View

variable (v : View)

/-- The names in a folder that a beginning may go on to. Hidden ones are left out, and there are
    none where no directory can be read. -/
def entries (folder start : String) : List String :=
  match (v.tree.resolve v.cwd v.home folder).node with
  | some (.dir d) => d.names.filter fun name => !isHiddenName name && Text.startsWith start name
  | _ => []

/-- `line` is completed to one of the names behind `head` and `kept`. -/
inductive Offers (line : String) : (head kept : String) → (names : List String) → Prop where
  /-- The first word becomes the name of a command. -/
  | command {head word : String} (cut : Text.CutBehind ' ' line head word)
      (first : ∀ c ∈ head.toList, c = ' ') :
      Offers line head "" (v.commands.filter (Text.startsWith word))
  /-- Behind the last slash of any other word comes the name of an entry. -/
  | entry {head word kept start : String} (cut : Text.CutBehind ' ' line head word)
      (later : ∃ c ∈ head.toList, c ≠ ' ') (slash : Text.CutBehind '/' word kept start) :
      Offers line head kept (v.entries (folder kept) start)

variable {v}

/-- Offered are the entries of a readable directory that go on from what was typed and are not
    hidden. -/
theorem mem_entries_iff {folder start name : String} :
    name ∈ v.entries folder start ↔
      ∃ d, (v.tree.resolve v.cwd v.home folder).node = some (.dir d) ∧ name ∈ d.names ∧
        isHiddenName name = false ∧ ∃ rest, name = start ++ rest := by
  rw [entries]
  split
  · rename_i d hd
    rw [List.mem_filter, Bool.and_eq_true, Bool.not_eq_true', Text.startsWith_iff]
    constructor
    · exact fun h => ⟨d, hd, h⟩
    · rintro ⟨other, hother, h⟩
      rw [hd] at hother
      cases hother
      exact h
  · rename_i hnone
    constructor
    · exact fun h => absurd h List.not_mem_nil
    · rintro ⟨d, hd, _⟩
      exact absurd hd (hnone d)

/-- What is offered are the candidates. -/
theorem Offers.candidates {line head kept : String} {names : List String}
    (h : v.Offers line head kept names) :
    (Draft.ofLine line).head = head ∧ v.candidates (Draft.ofLine line) = (kept, names) := by
  cases h with
  | command cut first =>
      rw [Draft.ofLine_eq cut, View.candidates, if_pos (Draft.isFirst_iff.2 first)]
      exact ⟨rfl, rfl⟩
  | entry cut later slash =>
      rename_i word start
      have hlater : ¬(Draft.isFirst ⟨head, word⟩ = true) := by
        rw [Draft.isFirst_iff]
        rcases later with ⟨c, hc, hne⟩
        exact fun hfirst => hne (hfirst c hc)
      rw [Draft.ofLine_eq cut, View.candidates, if_neg hlater, Draft.parts_eq slash]
      refine ⟨rfl, ?_⟩
      rw [entries]
      dsimp only
      rcases (v.tree.resolve v.cwd v.home (folder kept)).node with _ | _ | _ | _
      all_goals rfl

/-- There is always an offer, if only one without names. -/
theorem exists_offers (v : View) (line : String) :
    ∃ head kept names, v.Offers line head kept names := by
  rcases Text.exists_cutBehind ' ' line with ⟨head, word, cut⟩
  by_cases hfirst : ∀ c ∈ head.toList, c = ' '
  · exact ⟨_, _, _, .command cut hfirst⟩
  · rcases Text.exists_cutBehind '/' word with ⟨kept, start, slash⟩
    simp only [Classical.not_forall] at hfirst
    rcases hfirst with ⟨c, hc, hne⟩
    exact ⟨_, _, _, .entry cut ⟨c, hc, hne⟩ slash⟩

end View

namespace Editor

/-- The text that completion goes by, and the place of the candidate to show next. -/
def begun (e : Editor) : String × Nat :=
  match e.completion with
  | .cycling snapshot next => (snapshot, next)
  | .idle => (spaced e.buffer, 0)

/-- Completion is begun on the line, without its no-break spaces. -/
theorem begun_of_idle {e : Editor} (h : e.completion = .idle) : e.begun = (spaced e.buffer, 0) := by
  rw [begun, h]

/-- A place among `count` candidates: behind the last one comes the first again. -/
def turn (count next : Nat) : Nat := if next < count then next else 0

theorem turn_zero (count : Nat) : turn count 0 = 0 := ite_self 0

theorem turn_lt {count : Nat} (h : 0 < count) (next : Nat) : turn count next < count := by
  rw [turn]
  split
  · assumption
  · exact h

/-- So the places come round. -/
theorem turn_mod {count : Nat} (h : 0 < count) (k : Nat) :
    turn count (k % count + 1) = (k + 1) % count := by
  have hlt : k % count < count := Nat.mod_lt k h
  rw [turn, ← Nat.mod_add_mod]
  split
  · rename_i hnext
    rw [Nat.mod_eq_of_lt hnext]
  · rename_i hlast
    rw [show k % count + 1 = count by omega, Nat.mod_self]

/-- The editor after presses of the completion key, each with what the shell is like then. -/
def tabs (e : Editor) (views : List View) : Editor :=
  views.foldl (fun e v => e.press .tab v) e

theorem tabs_concat (e : Editor) (views : List View) (v : View) :
    e.tabs (views ++ [v]) = (e.tabs views).press .tab v := by
  rw [tabs, List.foldl_append, List.foldl_cons, List.foldl_nil, tabs]

variable {e : Editor} {v : View} {head kept : String} {names : List String}

/-- The name whose turn it is comes behind what is kept, if there is one. -/
theorem complete_eq (h : v.Offers e.begun.1 head kept names) : e.complete v =
    if e.begun.1 = "" then e
    else (names[turn names.length e.begun.2]?.map fun name =>
      { e with
        buffer := head ++ kept ++ name
        completion := .cycling e.begun.1 (turn names.length e.begun.2 + 1) }).getD e := by
  rcases h.candidates with ⟨hhead, hcandidates⟩
  rw [complete]
  cases hc : e.completion
  -- Begun or not, what is left to decide is the same.
  all_goals
    rw [begun, hc] at hhead hcandidates ⊢
    simp only [hhead, hcandidates]
    rw [turn]
    split
    · rfl
    · rcases names[_]? with _ | name
      · rfl
      · rfl

/-- Completion does not look at the history, and a press leaves it. -/
theorem tab_eq (e : Editor) (v : View) :
    e.press .tab v = { e.complete v with scroll := .live } := by
  rcases v.exists_offers e.begun.1 with ⟨head, kept, names, h⟩
  have hlive : v.Offers ({ e with scroll := .live } : Editor).begun.1 head kept names := h
  have hbegun : ({ e with scroll := .live } : Editor).begun = e.begun := rfl
  rw [press, complete_eq h, complete_eq hlive, hbegun]
  split
  · rfl
  · rcases names[_]? with _ | name
    · rfl
    · rfl

/-- A press only leaves the history where nothing is offered, and where something is, it shows the
    name whose turn it is. -/
theorem tab_cases (h : v.Offers e.begun.1 head kept names) :
    (e.begun.1 = "" ∨ names = []) ∧ e.press .tab v = { e with scroll := .live } ∨
      e.begun.1 ≠ "" ∧ ∃ name, names[turn names.length e.begun.2]? = some name ∧
        e.press .tab v =
          ⟨head ++ kept ++ name, .live, .cycling e.begun.1 (turn names.length e.begun.2 + 1)⟩ := by
  rw [tab_eq, complete_eq h]
  by_cases hempty : e.begun.1 = ""
  · rw [if_pos hempty]
    exact .inl ⟨.inl hempty, rfl⟩
  · rw [if_neg hempty]
    by_cases hnone : names = []
    · refine .inl ⟨.inr hnone, ?_⟩
      rw [hnone]
      rfl
    · have hturn := turn_lt (List.length_pos_iff.2 hnone) e.begun.2
      refine .inr ⟨hempty, names[turn names.length e.begun.2], List.getElem?_eq_getElem hturn, ?_⟩
      rw [List.getElem?_eq_getElem hturn]
      rfl

/-- The text that completion goes by stays, whatever the shell is like. -/
theorem begun_tab (e : Editor) (v : View) : (e.press .tab v).begun.1 = e.begun.1 := by
  rcases v.exists_offers e.begun.1 with ⟨head, kept, names, h⟩
  rcases tab_cases h with ⟨_, hsame⟩ | ⟨_, name, _, hshown⟩
  · rw [hsame]
    rfl
  · rw [hshown]
    rfl

theorem begun_tabs (e : Editor) (views : List View) : (e.tabs views).begun.1 = e.begun.1 := by
  induction views generalizing e with
  | nil => rfl
  | cons v views ih =>
      rw [tabs, List.foldl_cons, ← tabs, ih, begun_tab]

/-- Where nothing is offered, no number of presses changes the line. -/
theorem tabs_of_none (h : v.Offers e.begun.1 head kept names)
    (hnone : e.begun.1 = "" ∨ names = []) (k : Nat) :
    (e.tabs (List.replicate k v)).buffer = e.buffer ∧
      (e.tabs (List.replicate k v)).completion = e.completion := by
  induction k with
  | zero => exact ⟨rfl, rfl⟩
  | succ k ih =>
      -- The last press goes by the same text, so it is offered as little.
      have hlater : v.Offers (e.tabs (List.replicate k v)).begun.1 head kept names := by
        rwa [begun_tabs]
      rw [List.replicate_succ', tabs_concat]
      rcases tab_cases hlater with ⟨_, hsame⟩ | ⟨hsome, name, hname, _⟩
      · rw [hsame]
        exact ih
      · rw [begun_tabs] at hsome
        rcases hnone with hempty | rfl
        · exact absurd hempty hsome
        · cases hname

/-- Where something is, the presses go through it in order and round again, from the first name
    on. The place of the next name follows that of the one that shows. -/
theorem tabs_of_some (h : v.Offers e.begun.1 head kept names) (hsome : e.begun.1 ≠ "")
    (hne : names ≠ []) (hfirst : turn names.length e.begun.2 = 0) (k : Nat) :
    ∃ name, names[k % names.length]? = some name ∧
      e.tabs (List.replicate (k + 1) v) =
        ⟨head ++ kept ++ name, .live, .cycling e.begun.1 (k % names.length + 1)⟩ := by
  have hpos : 0 < names.length := List.length_pos_iff.2 hne
  -- Before each press it is the turn of the name at the number of presses, counted round.
  have hstep : ∀ n, turn names.length (e.tabs (List.replicate n v)).begun.2 = n % names.length →
      ∃ name, names[n % names.length]? = some name ∧
        e.tabs (List.replicate (n + 1) v) =
          ⟨head ++ kept ++ name, .live, .cycling e.begun.1 (n % names.length + 1)⟩ := by
    intro n hturn
    have hlater : v.Offers (e.tabs (List.replicate n v)).begun.1 head kept names := by
      rwa [begun_tabs]
    rw [List.replicate_succ', tabs_concat]
    rcases tab_cases hlater with ⟨hempty | hnone, _⟩ | ⟨_, name, hname, hshown⟩
    · rw [begun_tabs] at hempty
      exact absurd hempty hsome
    · exact absurd hnone hne
    · rw [hturn] at hname hshown
      rw [begun_tabs] at hshown
      exact ⟨name, hname, hshown⟩
  induction k with
  | zero =>
      refine hstep 0 ?_
      rw [Nat.zero_mod]
      exact hfirst
  | succ k ih =>
      rcases ih with ⟨_, _, hshown⟩
      refine hstep (k + 1) ?_
      rw [hshown]
      exact turn_mod hpos k

/-- However often the key is pressed, either nothing has happened, or an offered name shows. -/
theorem tabs_cases (hidle : e.completion = .idle) (h : v.Offers (spaced e.buffer) head kept names)
    (k : Nat) :
    (e.tabs (List.replicate k v)).buffer = e.buffer ∧
        (e.tabs (List.replicate k v)).completion = .idle ∨
      ∃ name ∈ names, (e.tabs (List.replicate k v)).buffer = head ++ kept ++ name := by
  have hbegun : e.begun = (spaced e.buffer, 0) := begun_of_idle hidle
  by_cases hnone : e.begun.1 = "" ∨ names = []
  · have hsame := tabs_of_none (e := e) (by rwa [hbegun]) hnone k
    rw [hidle] at hsame
    exact .inl hsame
  · cases k with
    | zero => exact .inl ⟨rfl, hidle⟩
    | succ k =>
        have hfirst : turn names.length e.begun.2 = 0 := by rw [hbegun, turn_zero]
        rcases tabs_of_some (e := e) (by rwa [hbegun]) (fun hempty => hnone (.inl hempty))
          (fun hnil => hnone (.inr hnil)) hfirst k with ⟨name, hname, hshown⟩
        refine .inr ⟨name, List.mem_of_getElem? hname, ?_⟩
        rw [hshown]

/-- Every offered name shows before the presses come round. -/
theorem exists_tabs (hidle : e.completion = .idle)
    (h : v.Offers (spaced e.buffer) head kept names) (hsome : spaced e.buffer ≠ "")
    {name : String} (hname : name ∈ names) :
    ∃ k, 1 ≤ k ∧ k ≤ names.length ∧
      (e.tabs (List.replicate k v)).buffer = head ++ kept ++ name := by
  have hbegun : e.begun = (spaced e.buffer, 0) := begun_of_idle hidle
  have hfirst : turn names.length e.begun.2 = 0 := by rw [hbegun, turn_zero]
  rcases List.mem_iff_getElem.1 hname with ⟨i, hi, rfl⟩
  refine ⟨i + 1, Nat.le_add_left 1 i, hi, ?_⟩
  rcases tabs_of_some (e := e) (by rwa [hbegun]) (by rwa [hbegun]) (List.ne_nil_of_mem hname)
    hfirst i with ⟨shown, hshown, heq⟩
  rw [Nat.mod_eq_of_lt hi, List.getElem?_eq_getElem hi, Option.some.injEq] at hshown
  rw [heq, hshown]

/-- The completion key goes through what a text is completed to. Begun on a text to which nothing
    is offered, it changes neither the line nor what is remembered, however often it is pressed.
    Otherwise the presses show the offered names in order, each behind what is kept of the text, and
    begin again behind the last one. If the shell changes between the presses, each of them still
    goes by the text that completion was begun on: it changes nothing, or it shows a name that is
    offered then. -/
theorem tab_cycles {e : Editor} (hidle : e.completion = .idle) (v : View) :
    let s := spaced e.buffer
    (∃ head kept names, v.Offers s head kept names) ∧
    (∀ head kept names, v.Offers s head kept names →
      (s = "" ∨ names = [] → ∀ k,
        (e.tabs (List.replicate k v)).buffer = e.buffer ∧
        (e.tabs (List.replicate k v)).completion = .idle) ∧
      (s ≠ "" → names ≠ [] → ∀ k, 1 ≤ k → ∃ name, names[(k - 1) % names.length]? = some name ∧
        (e.tabs (List.replicate k v)).buffer = head ++ kept ++ name ∧
        (e.tabs (List.replicate k v)).completion =
          .cycling s ((k - 1) % names.length + 1))) ∧
    ∀ views w,
      (e.tabs (views ++ [w])).buffer = (e.tabs views).buffer ∧
        (e.tabs (views ++ [w])).completion = (e.tabs views).completion ∨
      ∃ head kept names, w.Offers s head kept names ∧ ∃ name ∈ names,
        (e.tabs (views ++ [w])).buffer = head ++ kept ++ name ∧
        ∃ next, (e.tabs (views ++ [w])).completion = .cycling s next := by
  intro s
  have hbegun : e.begun = (s, 0) := begun_of_idle hidle
  refine ⟨v.exists_offers s, fun head kept names hoffer => ⟨fun hnone k => ?_, ?_⟩,
    fun views w => ?_⟩
  · have hsame := tabs_of_none (e := e) (by rwa [hbegun]) (by rwa [hbegun]) k
    rwa [hidle] at hsame
  · intro hsome hne k hk
    have hfirst : turn names.length e.begun.2 = 0 := by rw [hbegun, turn_zero]
    obtain ⟨n, rfl⟩ : ∃ n, k = n + 1 := ⟨k - 1, by omega⟩
    rcases tabs_of_some (e := e) (by rwa [hbegun]) (by rwa [hbegun]) hne hfirst n with
      ⟨name, hname, hshown⟩
    rw [hshown, hbegun]
    exact ⟨name, hname, rfl, rfl⟩
  · -- The text is the one of the first press, but what is offered to it may be new.
    have htext : (e.tabs views).begun.1 = s := by rw [begun_tabs, hbegun]
    rcases w.exists_offers s with ⟨head, kept, names, hoffer⟩
    rw [tabs_concat]
    rcases tab_cases (htext ▸ hoffer) with ⟨_, hsame⟩ | ⟨_, name, hname, hshown⟩
    · rw [hsame]
      exact .inl ⟨rfl, rfl⟩
    · refine .inr ⟨head, kept, names, hoffer, name, List.mem_of_getElem? hname, ?_⟩
      rw [hshown, htext]
      exact ⟨rfl, _, rfl⟩

/-- The hidden name is passed over, and behind the second of the others the first shows again. -/
theorem tab_cycles_documents :
    let docs := Dir.ofList [("a.txt", .file true), (".c", .file true), ("b.txt", .file true)]
    let tree := Dir.ofList [("home", .dir (.ofList [("u", .dir (.ofList [("docs", .dir docs)]))]))]
    let v : View := ⟨tree, .home "u", .home "u", [], ["cat", "cd"]⟩
    let e : Editor := { buffer := "cat\u00a0~/docs/" }
    v.Offers "cat ~/docs/" "cat " "~/docs/" ["a.txt", "b.txt"] ∧
      (e.tabs (List.replicate 3 v)).buffer = "cat ~/docs/a.txt" ∧
      (e.tabs (List.replicate 3 v)).completion = .cycling "cat ~/docs/" 1 := by
  intro docs tree v e
  have hspaced : spaced e.buffer = "cat ~/docs/" := by decide
  have cut : Text.CutBehind ' ' "cat ~/docs/" "cat " "~/docs/" :=
    ⟨rfl, .inr ⟨"cat", rfl⟩, by decide⟩
  have slash : Text.CutBehind '/' "~/docs/" "~/docs/" "" := ⟨rfl, .inr ⟨"~/docs", rfl⟩, by decide⟩
  have hoffer : v.Offers "cat ~/docs/" "cat " "~/docs/" ["a.txt", "b.txt"] :=
    .entry cut ⟨'c', by decide, by decide⟩ slash
  have hcycles := (tab_cycles (e := e) rfl v).2.1 "cat " "~/docs/" ["a.txt", "b.txt"]
  rw [hspaced] at hcycles
  rcases (hcycles hoffer).2 (by decide) (by decide) 3 (by decide) with
    ⟨name, hname, hbuffer, hcompletion⟩
  cases hname
  exact ⟨hoffer, hbuffer, hcompletion⟩

end Editor

end TreeShell
