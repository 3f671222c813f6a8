import TreeShell.Proofs.Command.Words
import TreeShell.Proofs.Editor.Cycling
import TreeShell.Proofs.Path.Relative
import TreeShell.Proofs.Tree.Everywhere

/-!
# What a Completed Word Names

Completion handles text. It cuts the line at its last space and the last word at its last slash,
looks up what stands before the slash, and puts a name of that directory behind what it has cut off.
When the line is run, others read it: it is cut into words, and the last word is replayed from the
working directory as a whole. That they read what completion meant is not a matter of course, since
the directory was looked up on its own and without its slash.

It holds because a name behind a slash continues the replay of what stands before, however that is
spelled, and a name alone continues that of the working directory. Only the name has to be one that
can be typed: in one word, without a slash in it, and no tilde, which alone would be home. Dots need
no mention, since hidden names are not offered.

## Main definitions

* `TypedName`: A name that can stand at the end of a word.

## Theorems

* `words_behind`, `words_cut`: Behind the cut stand the last word of the line and no other.
* `isWord_completed`: A name in place of its end leaves it one word.
* `Path.normalize_folder`: A name behind what is kept names an entry of the folder.
* `View.resolve_entry`: What is offered is there.
* `Editor.completed_word_resolves`: What completion shows, what it can show, and when it does not.
-/

namespace TreeShell

/-- A name that is one word, and at the end of a word is read as what it is. -/
def TypedName (name : String) : Prop := IsWord name ∧ '/' ∉ name.toList ∧ name ≠ "~"

instance (name : String) : Decidable (TypedName name) := inferInstanceAs (Decidable (_ ∧ _ ∧ _))

/-- A name that is not hidden is no dot. -/
theorem TypedName.ordinary {name : String} (h : TypedName name)
    (hshown : isHiddenName name = false) : Path.OrdinaryName name := by
  refine ⟨h.1.1, h.2.1, ?_, ?_⟩
  · rintro rfl
    exact absurd hshown (by decide)
  · rintro rfl
    exact absurd hshown (by decide)

section Words

variable {line head word : String} (cut : Text.CutBehind ' ' line head word)

include cut

/-- What is put behind the cut adds its own words. -/
theorem words_behind (text : String) : words (head ++ text) = words head ++ words text := by
  rcases cut.ends with rfl | ⟨before, rfl⟩
  · rw [String.empty_append]
    rfl
  · -- The space at the end of the head adds nothing to its words.
    have hhead : words (before ++ String.singleton ' ') = words before := by
      have hnone := words_append before ""
      rw [String.append_empty, show words "" = [] by rfl, List.append_nil] at hnone
      exact hnone
    rw [hhead]
    exact words_append before text

/-- What was cut off a line without no-break spaces is one word, or nothing. -/
theorem isWord_cut (hline : noBreakSpace ∉ line.toList) (hne : word ≠ "") : IsWord word := by
  rw [cut.eq_append, String.toList_append, List.mem_append] at hline
  exact ⟨hne, cut.notMem, fun hc => hline (.inr hc)⟩

theorem words_cut (hline : noBreakSpace ∉ line.toList) :
    words line = words head ++ if word = "" then [] else [word] := by
  rw [cut.eq_append, words_behind cut]
  split
  · rename_i hempty
    rw [hempty, show words "" = [] by rfl]
  · rename_i hne
    rw [words_eq_self_iff.2 (isWord_cut cut hline hne)]

/-- A name that takes the place of what stands behind the last slash leaves it one word. -/
theorem isWord_completed (hline : noBreakSpace ∉ line.toList) {kept start : String}
    (slash : Text.CutBehind '/' word kept start) {name : String} (hname : IsWord name) :
    IsWord (kept ++ name) := by
  by_cases hkept : kept = ""
  · rw [hkept, String.empty_append]
    exact hname
  · have hne : word ≠ "" := by
      rw [slash.eq_append]
      exact fun hempty => hkept (String.append_eq_empty_iff.1 hempty).1
    rcases isWord_cut cut hline hne with ⟨_, hspace, hbreak⟩
    rw [slash.eq_append, String.toList_append, List.mem_append] at hspace hbreak
    exact IsWord.append ⟨hkept, fun hc => hspace (.inl hc), fun hc => hbreak (.inl hc)⟩ hname

end Words

/-- A name behind what is kept names an entry of the folder, however the folder is spelled. -/
theorem Path.normalize_folder {word kept start : String} (h : Text.CutBehind '/' word kept start)
    {name : String} (hname : OrdinaryName name) (htilde : name ≠ "~") (cwd home : Path) :
    normalize cwd home (kept ++ name) = (normalize cwd home (folder kept)).child name := by
  have hsplit : Text.split '/' name = [name] := Text.split_of_notMem hname.2.1
  rcases h.ends with rfl | ⟨before, rfl⟩
  · -- Alone it continues the replay of the working directory, which a dot only repeats.
    have hhere : normalize cwd home "." = ⟨cwd.segments.foldl step []⟩ :=
      normalize_relative (by decide) (by decide) cwd home
    have hthere : normalize cwd home name = ⟨[name].foldl step (cwd.segments.foldl step [])⟩ := by
      rw [normalize_relative (by rw [hsplit]; exact hname.1) (by rw [hsplit]; exact htilde),
        hsplit]
    rw [String.empty_append, show folder "" = "." from rfl, hhere, hthere,
      foldl_step_of_ordinary (List.forall_mem_singleton.2 hname), child]
  · have hbehind := normalize_append cwd home before name
    rw [hsplit, foldl_step_of_ordinary (List.forall_mem_singleton.2 hname)] at hbehind
    rw [folder_behind, child]
    exact hbehind

namespace View

variable {v : View}

/-- What is offered is there: the word that it completes names it, and finds something. -/
theorem resolve_entry {word kept start : String} (slash : Text.CutBehind '/' word kept start)
    {d : Dir} (hd : (v.tree.resolve v.cwd v.home (folder kept)).node = some (.dir d))
    {name : String} (hname : name ∈ d.names) (hordinary : Path.OrdinaryName name)
    (htilde : name ≠ "~") :
    ∃ node, v.tree.resolve v.cwd v.home (kept ++ name) =
      ⟨some node, (v.tree.resolve v.cwd v.home (folder kept)).path.child name⟩ := by
  rcases Dir.exists_find?_of_mem_names hname with ⟨node, hnode⟩
  refine ⟨node, ?_⟩
  have hfolder : (Node.dir v.tree).follow
      (Path.normalize v.cwd v.home (folder kept)).segments = some (.dir d) := hd
  rw [Dir.resolve, Path.normalize_folder slash hordinary htilde, Path.segments_child, Dir.follow,
    Node.follow_append, hfolder, Option.bind_some, Node.follow, hnode]
  dsimp only
  rw [Node.follow_nil]
  rfl

/-- Where all names of the tree can be typed, those in a directory that is found can. -/
theorem typedName_of_mem (hnames : v.tree.Everywhere fun d => ∀ name ∈ d.names, TypedName name)
    {folder : String} {d : Dir} (hd : (v.tree.resolve v.cwd v.home folder).node = some (.dir d))
    {name : String} (hname : name ∈ d.names) : TypedName name :=
  (Node.everywhere_of_follow hnames hd).1 name hname

end View

namespace Editor

variable {e : Editor} {v : View} {head word kept start : String}

/-- Completion of a word behind the first one says what the line will mean. If the names in the
    tree can be typed, then a completed line has the words that it had before the last one, and one
    word more that goes on from what was typed; and that word, read from the working directory,
    names the entry of the folder that was offered. Nothing is left out: each entry of a readable
    folder that goes on from what was typed and is not hidden shows after as many presses as there
    are candidates, or before. Where the folder is none that can be read, no text changes. -/
theorem completed_word_resolves
    (hnames : v.tree.Everywhere fun d => ∀ name ∈ d.names, TypedName name)
    (hidle : e.completion = .idle)
    (cut : Text.CutBehind ' ' (spaced e.buffer) head word) (later : ∃ c ∈ head.toList, c ≠ ' ')
    (slash : Text.CutBehind '/' word kept start) :
    let found := v.tree.resolve v.cwd v.home (folder kept)
    let after := fun k => e.tabs (List.replicate k v)
    words e.buffer = words head ++ (if word = "" then [] else [word]) ∧
    (∀ k, (after k).buffer = e.buffer ∧ (after k).completion = .idle ∨
      ∃ d name node rest, found.node = some (.dir d) ∧ name ∈ d.names ∧
        (after k).buffer = head ++ kept ++ name ∧
        words (after k).buffer = words head ++ [kept ++ name] ∧ kept ++ name = word ++ rest ∧
        v.tree.resolve v.cwd v.home (kept ++ name) = ⟨some node, found.path.child name⟩) ∧
    (∀ d name rest, found.node = some (.dir d) → name ∈ d.names → isHiddenName name = false →
      name = start ++ rest → ∃ k, 1 ≤ k ∧ k ≤ (v.entries (folder kept) start).length ∧
        (after k).buffer = head ++ kept ++ name) ∧
    ((∀ d, found.node ≠ some (.dir d)) → ∀ k, (after k).buffer = e.buffer) := by
  intro found after
  have hoffer := View.Offers.entry (v := v) cut later slash
  refine ⟨?_, fun k => ?_, fun d name rest hd hname hshown hrest => ?_, fun hnone k => ?_⟩
  · rw [← words_spaced, words_cut cut (noBreakSpace_notMem_spaced e.buffer)]
  · rcases tabs_cases hidle hoffer k with hsame | ⟨name, hname, hbuffer⟩
    · exact .inl hsame
    · -- What shows was offered, so it is a name of the folder that can be typed.
      rcases View.mem_entries_iff.1 hname with ⟨d, hd, hmem, hshown, rest, hrest⟩
      have htyped := View.typedName_of_mem hnames hd hmem
      rcases View.resolve_entry slash hd hmem (htyped.ordinary hshown) htyped.2.2 with
        ⟨node, hnode⟩
      refine .inr ⟨d, name, node, rest, hd, hmem, hbuffer, ?_, ?_, hnode⟩
      · have hword : IsWord (kept ++ name) :=
          isWord_completed cut (noBreakSpace_notMem_spaced e.buffer) slash htyped.1
        rw [hbuffer, String.append_assoc, words_behind cut, words_eq_self_iff.2 hword]
      · rw [slash.eq_append, hrest, String.append_assoc]
  · -- There is a first word, so the line is not empty.
    have hsome : spaced e.buffer ≠ "" := by
      rcases later with ⟨c, hc, _⟩
      rw [cut.eq_append]
      intro hempty
      rw [(String.append_eq_empty_iff.1 hempty).1] at hc
      exact absurd hc List.not_mem_nil
    have hmem := View.mem_entries_iff.2 ⟨d, hd, hname, hshown, rest, hrest⟩
    exact exists_tabs hidle hoffer hsome hmem
  · rcases tabs_cases hidle hoffer k with ⟨hsame, _⟩ | ⟨name, hname, _⟩
    · exact hsame
    · rcases View.mem_entries_iff.1 hname with ⟨d, hd, _⟩
      exact absurd hd (hnone d)

/-- A folder that is spelled the long way round. The name completes the word as it was typed, and
    the word names the file as if its folder had been typed plainly. -/
theorem completed_word_resolves_spelling :
    let docs := Dir.ofList [("a.txt", .file true), ("b.txt", .file true)]
    let tree := Dir.ofList [("home", .dir (.ofList [("u", .dir (.ofList [("docs", .dir docs)]))]))]
    let v : View := ⟨tree, ⟨["home"]⟩, .home "u", [], ["cat", "cd"]⟩
    let e : Editor := { buffer := "cat u//../u/docs/b" }
    words (e.tabs [v]).buffer = ["cat", "u//../u/docs/b.txt"] ∧
      (tree.resolve ⟨["home"]⟩ (.home "u") "u//../u/docs/b.txt").path =
        ⟨["home", "u", "docs", "b.txt"]⟩ := by
  intro docs tree v e
  have hnames : tree.Everywhere fun d => ∀ name ∈ d.names, TypedName name := by decide
  have cut : Text.CutBehind ' ' (spaced e.buffer) "cat " "u//../u/docs/b" :=
    ⟨by decide, .inr ⟨"cat", rfl⟩, by decide⟩
  have slash : Text.CutBehind '/' "u//../u/docs/b" "u//../u/docs/" "b" :=
    ⟨rfl, .inr ⟨"u//../u/docs", rfl⟩, by decide⟩
  have hresolves := completed_word_resolves (e := e) (v := v) hnames rfl cut
    ⟨'c', by decide, by decide⟩ slash
  rcases hresolves.2.2.1 docs "b.txt" ".txt" rfl (by decide) (by decide) rfl with
    ⟨k, hfirst, hlast, hbuffer⟩
  obtain rfl : k = 1 := Nat.le_antisymm hlast hfirst
  rcases hresolves.2.1 1 with ⟨hsame, _⟩ | ⟨d, name, node, rest, _, _, hshown, hwords, _, hnode⟩
  · exact absurd (hbuffer.symm.trans hsame) (by decide)
  · rw [hbuffer, String.append_right_inj] at hshown
    subst hshown
    exact ⟨hwords, congrArg Resolved.path hnode⟩

end Editor

end TreeShell
