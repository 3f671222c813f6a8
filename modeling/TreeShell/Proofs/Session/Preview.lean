import Mathlib.Data.List.Basic
import TreeShell.Shell.Preview
import TreeShell.Proofs.Path.Printed

/-!
# What the Name of a Picture Tells

The name of a picture has underscores in three places: two for a slash, two for the joint between
path and command, and one for a space. Over plain words, which have none of their own, the name can
be cut at every underscore again, and what it was made of shows in its pieces (`previewPieces`). An
empty piece stands before every name but the first, and before the command. Two words without an
empty piece between them can only be words of one command.

This leaves one thing open. A single word behind an empty piece can be the last name of a path or
a command of one word, so the picture of a directory without a command is that of the directory
that contains it with the name as the command. The root is apart, since its name is the empty
piece. There is no other pair that shares a picture (`previewKey_eq_iff`).

## Main definitions

* `PlainWord`, `Path.Plain`, `PlainCommand`: Words of ASCII letters and digits, and what is made
  of them.
* `previewPieces`: The pieces between the underscores of a name.

## Theorems

* `previewKey_eq_intercalate`: A name is its pieces, with an underscore between each two.
* `previewKey_eq_iff_pieces`: So it tells them.
* `piecesBelow_eq_iff`: What has the same pieces.
* `previewKey_eq_iff`: What shares a picture.
* `previewKey_shared`: Pictures are shared.
-/

namespace TreeShell

/-- A word of ASCII letters and digits. -/
structure PlainWord (s : String) : Prop where
  ne_empty : s ≠ ""
  letters : ∀ c ∈ s.toList, c.isAlphanum = true

instance (s : String) : Decidable (PlainWord s) :=
  decidable_of_iff (s ≠ "" ∧ s.toList.all Char.isAlphanum = true)
    ⟨fun h => ⟨h.1, List.all_eq_true.1 h.2⟩, fun h => ⟨h.ne_empty, List.all_eq_true.2 h.letters⟩⟩

/-- Every segment is such a word. -/
def Path.Plain (p : Path) : Prop := ∀ s ∈ p.segments, PlainWord s

instance (p : Path) : Decidable p.Plain :=
  List.decidableBAll _ _

/-- Nothing, or such words with one space between each two. -/
def PlainCommand (command : String) : Prop :=
  ∃ words, (∀ word ∈ words, PlainWord word) ∧ command = " ".intercalate words

/-- The pieces of a command, with the joint before it. -/
def commandPieces : List String → List String
  | [] => []
  | word :: words => "" :: word :: words

/-- The pieces behind the first name of a path. -/
def piecesBelow : List String → List String → List String
  | [], words => commandPieces words
  | name :: names, words => "" :: name :: piecesBelow names words

/-- The pieces between the underscores of a picture's name. -/
def previewPieces : List String → List String → List String
  | [], words => "" :: piecesBelow [] words
  | name :: names, words => name :: piecesBelow names words

section Letters

/-- Letters and digits are ASCII. -/
theorem lt_of_isAlphanum {c : Char} (h : c.isAlphanum = true) : c.toNat < 128 := by
  have hbound : ∀ last : Char, c.val ≤ last.val → last.toNat < 128 → c.toNat < 128 :=
    fun last hle hlast => Nat.lt_of_le_of_lt (UInt32.le_iff_toNat_le.1 hle) hlast
  rcases Bool.or_eq_true_iff.1 h with halpha | hdigit
  · rcases Bool.or_eq_true_iff.1 halpha with hupper | hlower
    · exact hbound 'Z' (of_decide_eq_true hupper).2 (by decide)
    · exact hbound 'z' (of_decide_eq_true (Bool.and_eq_true_iff.1 hlower).2) (by decide)
  · exact hbound '9' (of_decide_eq_true (Bool.and_eq_true_iff.1 hdigit).2) (by decide)

/-- No letter or digit is white space. -/
theorem isBlank_of_isAlphanum {c : Char} (h : c.isAlphanum = true) : Text.isBlank c = false := by
  have hletters : ∀ n : Fin 128,
      (Char.ofNat n).isAlphanum = true → Text.isBlank (Char.ofNat n) = false := by decide
  have hc := hletters ⟨c.toNat, lt_of_isAlphanum h⟩
  rw [Char.ofNat_toNat] at hc
  exact hc h

theorem ne_of_isAlphanum {c d : Char} (hc : c.isAlphanum = true) (hd : d.isAlphanum = false) :
    c ≠ d := by
  rintro rfl
  rw [hc] at hd
  exact Bool.noConfusion hd

theorem PlainWord.notMem {s : String} (h : PlainWord s) {c : Char} (hc : c.isAlphanum = false) :
    c ∉ s.toList :=
  fun hmem => ne_of_isAlphanum (h.letters c hmem) hc rfl

theorem PlainWord.toList_ne_nil {s : String} (h : PlainWord s) : s.toList ≠ [] :=
  fun hnil => h.ne_empty (String.toList_eq_nil_iff.1 hnil)

/-- Joined words are the first of them, and the others with the separator before each. -/
theorem toList_intercalate_cons (sep : Char) (word : String) (words : List String) :
    ((String.singleton sep).intercalate (word :: words)).toList =
      word.toList ++ words.flatMap (sep :: ·.toList) := by
  induction words generalizing word with
  | nil => rw [String.intercalate_singleton, List.flatMap_nil, List.append_nil]
  | cons next words ih =>
      rw [String.intercalate_cons_cons, String.toList_append, String.toList_append, ih,
        String.toList_singleton, List.flatMap_cons, List.append_assoc]
      rfl

end Letters

section Rendered

variable {word : String} {words : List String}

/-- Words end in a letter or digit. -/
theorem exists_last_letter (h : ∀ w ∈ word :: words, PlainWord w) :
    ∃ before last, word.toList ++ words.flatMap (' ' :: ·.toList) = before ++ [last] ∧
      last.isAlphanum = true := by
  induction words generalizing word with
  | nil =>
      have hword := h word List.mem_cons_self
      have hne := hword.toList_ne_nil
      refine ⟨word.toList.dropLast, word.toList.getLast hne, ?_,
        hword.letters _ (List.getLast_mem hne)⟩
      rw [List.flatMap_nil, List.append_nil, List.dropLast_concat_getLast]
  | cons next words ih =>
      rcases ih fun w hw => h w (List.mem_cons_of_mem _ hw) with ⟨before, last, hsplit, hlast⟩
      refine ⟨word.toList ++ ' ' :: before, last, ?_, hlast⟩
      rw [List.flatMap_cons, List.cons_append, hsplit, List.append_assoc, List.cons_append]

/-- Words have no white space around them. -/
theorem trimChars_words (h : ∀ w ∈ word :: words, PlainWord w) :
    Text.trimChars (word.toList ++ words.flatMap (' ' :: ·.toList)) =
      word.toList ++ words.flatMap (' ' :: ·.toList) := by
  have hword := h word List.mem_cons_self
  rcases exists_last_letter h with ⟨before, last, hsplit, hlast⟩
  -- There is a letter in front and one at the end, so nothing is dropped from either side.
  have hfront : (word.toList ++ words.flatMap (' ' :: ·.toList)).dropWhile Text.isBlank =
      word.toList ++ words.flatMap (' ' :: ·.toList) := by
    cases hchars : word.toList with
    | nil => exact absurd hchars hword.toList_ne_nil
    | cons c cs =>
        have hc := isBlank_of_isAlphanum (hword.letters c (hchars ▸ List.mem_cons_self))
        rw [List.cons_append, List.dropWhile_cons_of_neg (by rw [hc]; exact Bool.false_ne_true)]
  rw [Text.trimChars, hfront, hsplit, List.reverse_concat,
    List.dropWhile_cons_of_neg (by rw [isBlank_of_isAlphanum hlast]; exact Bool.false_ne_true),
    List.reverse_cons, List.reverse_reverse]

/-- Where only the separator is written in another way, the words stay as they are. -/
theorem flatMap_plainWords {rewrite : Char → List Char} (h : ∀ w ∈ word :: words, PlainWord w)
    (hletter : ∀ c : Char, c.isAlphanum = true → rewrite c = [c]) (sep : Char) :
    (word.toList ++ words.flatMap (sep :: ·.toList)).flatMap rewrite =
      word.toList ++ words.flatMap (rewrite sep ++ ·.toList) := by
  have hword : ∀ w, PlainWord w → w.toList.flatMap rewrite = w.toList := fun w hw => by
    rw [List.flatMap_congr fun c hc => hletter c (hw.letters c hc), List.flatMap_singleton']
  rw [List.flatMap_append, hword word (h word List.mem_cons_self), List.flatMap_assoc]
  congr 1
  refine List.flatMap_congr fun w hw => ?_
  rw [List.flatMap_cons, hword w (h w (List.mem_cons_of_mem _ hw))]

/-- A command is written as its words with an underscore between each two. -/
theorem previewCommand_words (h : ∀ w ∈ word :: words, PlainWord w) :
    previewCommand (" ".intercalate (word :: words)) =
      word.toList ++ words.flatMap ('_' :: ·.toList) := by
  have hspace : " " = String.singleton ' ' := rfl
  have hletter : ∀ c : Char, c.isAlphanum = true → [if c = ' ' then '_' else c] = [c] :=
    fun c hc => by rw [if_neg (ne_of_isAlphanum hc (by decide))]
  rw [previewCommand, hspace, toList_intercalate_cons, trimChars_words h, List.map_eq_flatMap]
  exact flatMap_plainWords h hletter ' '

/-- A path is written as its names with two underscores between each two. -/
theorem previewPath_text (h : ∀ name ∈ word :: words, PlainWord name) :
    previewPath (Path.text ⟨word :: words⟩) =
      word.toList ++ words.flatMap ('_' :: '_' :: ·.toList) := by
  have hslash : "/" = String.singleton '/' := rfl
  have hletter : ∀ c : Char, c.isAlphanum = true →
      (if c = '/' then ['_', '_'] else if c = '.' then ['-'] else [c]) = [c] := fun c hc => by
    rw [if_neg (ne_of_isAlphanum hc (by decide)), if_neg (ne_of_isAlphanum hc (by decide))]
  rw [previewPath, Path.text_eq_intercalate (List.cons_ne_nil _ _), hslash,
    toList_intercalate_cons, String.toList_empty, List.nil_append, List.flatMap_cons,
    List.cons_append]
  exact flatMap_plainWords h hletter '/'

end Rendered

section Pieces

variable {names names' words words' : List String}

/-- A command is written behind two underscores, unless it is empty. -/
theorem flatMap_commandPieces (h : ∀ w ∈ words, PlainWord w) :
    (commandPieces words).flatMap ('_' :: ·.toList) =
      if previewCommand (" ".intercalate words) = [] then []
      else '_' :: '_' :: previewCommand (" ".intercalate words) := by
  cases words with
  | nil => rfl
  | cons word words =>
      have hne : word.toList ++ words.flatMap ('_' :: ·.toList) ≠ [] :=
        List.append_ne_nil_of_left_ne_nil (h word List.mem_cons_self).toList_ne_nil _
      rw [previewCommand_words h, if_neg hne]
      rfl

/-- The names come before the command. -/
theorem flatMap_piecesBelow (names words : List String) :
    (piecesBelow names words).flatMap ('_' :: ·.toList) =
      names.flatMap ('_' :: '_' :: ·.toList) ++
        (commandPieces words).flatMap ('_' :: ·.toList) := by
  induction names with
  | nil => rfl
  | cons name names ih =>
      rw [piecesBelow, List.flatMap_cons, List.flatMap_cons, ih, List.flatMap_cons]
      simp only [String.toList_empty, List.cons_append, List.nil_append, List.append_assoc]

/-- The name of a picture is its pieces, with an underscore between each two. -/
theorem previewKey_eq_intercalate {p : Path} (hp : p.Plain) (hwords : ∀ w ∈ words, PlainWord w) :
    previewKey p.text (" ".intercalate words) =
      "_".intercalate (previewPieces p.segments words) ++ ".png" := by
  have hmark : "_" = String.singleton '_' := rfl
  apply String.toList_injective
  rw [previewKey, String.toList_append, hmark, String.toList_ofList,
    ← flatMap_commandPieces hwords]
  -- The root has no names, but its part of the name is still a piece, which is empty.
  rcases p with ⟨_ | ⟨first, names⟩⟩
  · rw [previewPieces, toList_intercalate_cons]
    rfl
  · rw [previewPieces, toList_intercalate_cons, previewPath_text hp, flatMap_piecesBelow,
      ← List.append_assoc first.toList]
    rfl

theorem mem_piecesBelow {piece : String} (hmem : piece ∈ piecesBelow names words) :
    piece = "" ∨ piece ∈ names ∨ piece ∈ words := by
  induction names with
  | nil =>
      cases words with
      | nil => exact absurd hmem List.not_mem_nil
      | cons word words => exact (List.mem_cons.1 hmem).imp_right .inr
  | cons name names ih =>
      rcases List.mem_cons.1 hmem with hempty | hmem
      · exact .inl hempty
      rcases List.mem_cons.1 hmem with rfl | hmem
      · exact .inr (.inl List.mem_cons_self)
      · exact (ih hmem).imp_right fun h => h.imp_left (List.mem_cons_of_mem _)

theorem previewPieces_ne_nil (names words : List String) : previewPieces names words ≠ [] := by
  cases names with
  | nil => exact List.cons_ne_nil _ _
  | cons name names => exact List.cons_ne_nil _ _

/-- No piece holds an underscore. -/
theorem underscore_notMem (hnames : ∀ name ∈ names, PlainWord name)
    (hwords : ∀ w ∈ words, PlainWord w) : ∀ piece ∈ previewPieces names words,
      '_' ∉ piece.toList := by
  have hbelow : ∀ below : List String, (∀ name ∈ below, PlainWord name) →
      ∀ piece ∈ piecesBelow below words, '_' ∉ piece.toList := by
    intro below hnames piece hmem
    rcases mem_piecesBelow hmem with rfl | hname | hword
    · exact List.not_mem_nil
    · exact (hnames piece hname).notMem (by decide)
    · exact (hwords piece hword).notMem (by decide)
  cases names with
  | nil => exact List.forall_mem_cons.2 ⟨List.not_mem_nil, hbelow [] hnames⟩
  | cons name names =>
      rw [List.forall_mem_cons] at hnames
      exact List.forall_mem_cons.2 ⟨hnames.1.notMem (by decide), hbelow names hnames.2⟩

/-- The last name of a path without a command leaves the pieces of a command. -/
theorem piecesBelow_append (names : List String) (name : String) :
    piecesBelow (names ++ [name]) [] = piecesBelow names [name] := by
  induction names with
  | nil => rfl
  | cons first names ih => rw [List.cons_append, piecesBelow, piecesBelow, ih]

/-- Whatever is below the first name begins with an empty piece. -/
theorem eq_nil_of_piecesBelow (h : "" ∉ piecesBelow names words) : names = [] ∧ words = [] := by
  cases names with
  | nil =>
      cases words with
      | nil => exact ⟨rfl, rfl⟩
      | cons word words => exact absurd List.mem_cons_self h
  | cons name names => exact absurd List.mem_cons_self h

/-- A command has the pieces of names only if it is a single word, and that is the only name. -/
theorem eq_of_commandPieces (hwords : "" ∉ words) {name : String}
    (h : commandPieces words = piecesBelow (name :: names) words') :
    words = [name] ∧ names = [] ∧ words' = [] := by
  cases words with
  | nil => exact absurd h (List.cons_ne_nil _ _).symm
  | cons word words =>
      rw [commandPieces, piecesBelow, List.cons.injEq, List.cons.injEq] at h
      rcases h with ⟨-, rfl, rfl⟩
      rw [List.mem_cons, not_or] at hwords
      rcases eq_nil_of_piecesBelow hwords.2 with ⟨rfl, rfl⟩
      exact ⟨rfl, rfl, rfl⟩

theorem commandPieces_inj (h : commandPieces words = commandPieces words') : words = words' := by
  cases words with
  | nil =>
      cases words' with
      | nil => rfl
      | cons word' words' => exact absurd h.symm (List.cons_ne_nil _ _)
  | cons word words =>
      cases words' with
      | nil => exact absurd h (List.cons_ne_nil _ _)
      | cons word' words' => exact List.tail_eq_of_cons_eq h

/-- What has the same pieces, where no word of a command is empty. -/
theorem piecesBelow_eq_iff (hwords : "" ∉ words) (hwords' : "" ∉ words') :
    piecesBelow names words = piecesBelow names' words' ↔
      (names = names' ∧ words = words') ∨
      (words = [] ∧ ∃ word, words' = [word] ∧ names = names' ++ [word]) ∨
      (words' = [] ∧ ∃ word, words = [word] ∧ names' = names ++ [word]) := by
  constructor
  · -- The induction is on the names of one path, as far as the other has the same. Where one of
    -- them ends first, what is left of the other has to be a command.
    intro h
    induction names generalizing names' with
    | nil =>
        cases names' with
        | nil => exact .inl ⟨rfl, commandPieces_inj h⟩
        | cons name' names' =>
            rcases eq_of_commandPieces hwords h with ⟨rfl, rfl, rfl⟩
            exact .inr (.inr ⟨rfl, name', rfl, rfl⟩)
    | cons name names ih =>
        cases names' with
        | nil =>
            rcases eq_of_commandPieces hwords' h.symm with ⟨rfl, rfl, rfl⟩
            exact .inr (.inl ⟨rfl, name, rfl, rfl⟩)
        | cons name' names' =>
            rw [piecesBelow, piecesBelow, List.cons.injEq, List.cons.injEq] at h
            rcases h with ⟨-, rfl, hbelow⟩
            rcases ih hbelow with ⟨rfl, rfl⟩ | ⟨rfl, word, rfl, rfl⟩ | ⟨rfl, word, rfl, rfl⟩
            · exact .inl ⟨rfl, rfl⟩
            · exact .inr (.inl ⟨rfl, word, rfl, rfl⟩)
            · exact .inr (.inr ⟨rfl, word, rfl, rfl⟩)
  · rintro (⟨rfl, rfl⟩ | ⟨rfl, word, rfl, rfl⟩ | ⟨rfl, word, rfl, rfl⟩)
    · rfl
    · exact piecesBelow_append names' word
    · exact (piecesBelow_append names word).symm

/-- The same with the first names. An empty one, which only the root has, is told from a name. -/
theorem previewPieces_eq_iff (hnames : "" ∉ names) (hnames' : "" ∉ names')
    (hwords : "" ∉ words) (hwords' : "" ∉ words') :
    previewPieces names words = previewPieces names' words' ↔
      (names = names' ∧ words = words') ∨
      (words = [] ∧ names' ≠ [] ∧ ∃ word, words' = [word] ∧ names = names' ++ [word]) ∨
      (words' = [] ∧ names ≠ [] ∧ ∃ word, words = [word] ∧ names' = names ++ [word]) := by
  cases names with
  | nil =>
      cases names' with
      | nil =>
          rw [previewPieces, previewPieces, List.cons.injEq, piecesBelow_eq_iff hwords hwords']
          simp
      | cons name' names' =>
          have hne : "" ≠ name' := fun h => hnames' (h ▸ List.mem_cons_self)
          simp [previewPieces, hne]
  | cons name names =>
      cases names' with
      | nil =>
          have hne : name ≠ "" := fun h => hnames (h ▸ List.mem_cons_self)
          simp [previewPieces, hne]
      | cons name' names' =>
          rw [previewPieces, previewPieces, List.cons.injEq, piecesBelow_eq_iff hwords hwords']
          simp only [List.cons.injEq, List.cons_append]
          grind

end Pieces

section Shared

variable {p q : Path} {words words' : List String}

theorem Path.eq_child_iff {name : String} :
    p = q.child name ↔ p.segments = q.segments ++ [name] := by
  rcases p with ⟨names⟩
  rw [Path.child, Path.mk.injEq]

theorem PlainWord.empty_notMem (h : ∀ w ∈ words, PlainWord w) : "" ∉ words :=
  fun hmem => (h "" hmem).ne_empty rfl

/-- What has the same name has the same pieces: cut at the underscores, the name gives them back. -/
theorem previewKey_eq_iff_pieces (hp : p.Plain) (hq : q.Plain) (h : ∀ w ∈ words, PlainWord w)
    (h' : ∀ w ∈ words', PlainWord w) :
    previewKey p.text (" ".intercalate words) = previewKey q.text (" ".intercalate words') ↔
      previewPieces p.segments words = previewPieces q.segments words' := by
  have hread : ∀ {r : Path} {ws : List String}, r.Plain → (∀ w ∈ ws, PlainWord w) →
      Text.split '_' ("_".intercalate (previewPieces r.segments ws)) =
        previewPieces r.segments ws := fun hr hws =>
    Text.split_join '_' _ (previewPieces_ne_nil _ _) (underscore_notMem hr hws)
  rw [previewKey_eq_intercalate hp h, previewKey_eq_intercalate hq h', String.append_left_inj]
  refine ⟨fun heq => ?_, fun heq => heq ▸ rfl⟩
  rw [← hread hp h, heq, hread hq h']

/-- A command tells its words. -/
theorem joined_words_inj (h : ∀ w ∈ words, PlainWord w) (h' : ∀ w ∈ words', PlainWord w) :
    " ".intercalate words = " ".intercalate words' ↔ words = words' := by
  have hsplit : ∀ ws : List String, ws ≠ [] → (∀ w ∈ ws, PlainWord w) →
      Text.split ' ' (" ".intercalate ws) = ws := fun ws hne hws =>
    Text.split_join ' ' ws hne fun w hw => (hws w hw).notMem (by decide)
  have hempty : ∀ ws : List String, (∀ w ∈ ws, PlainWord w) → " ".intercalate ws = "" →
      ws = [] := by
    intro ws hws hjoined
    by_contra hne
    have hpieces := hsplit ws hne hws
    rw [hjoined, Text.split_of_notMem List.not_mem_nil] at hpieces
    exact PlainWord.empty_notMem hws (hpieces ▸ List.mem_cons_self)
  refine ⟨fun heq => ?_, fun heq => heq ▸ rfl⟩
  by_cases hne : words = []
  · rw [hne] at heq ⊢
    exact (hempty words' h' heq.symm).symm
  by_cases hne' : words' = []
  · rw [hne'] at heq ⊢
    exact hempty words h heq
  · rw [← hsplit words hne h, heq, hsplit words' hne' h']

/-- A command that is the last name of a path has one word. -/
theorem eq_child_command_iff (hp : p.Plain) (h : ∀ w ∈ words, PlainWord w)
    (h' : ∀ w ∈ words', PlainWord w) :
    (words = [] ∧ q.segments ≠ [] ∧
        ∃ word, words' = [word] ∧ p.segments = q.segments ++ [word]) ↔
      " ".intercalate words = "" ∧ q ≠ Path.root ∧ p = q.child (" ".intercalate words') := by
  have hroot : q.segments ≠ [] ↔ q ≠ Path.root := by
    rcases q with ⟨names⟩
    rw [Path.root, Ne, Ne, Path.mk.injEq]
  have hnil : ∀ w ∈ ([] : List String), PlainWord w := fun w hw => absurd hw List.not_mem_nil
  have hnone : " ".intercalate words = "" ↔ words = [] := joined_words_inj h hnil
  rw [hroot, hnone, Path.eq_child_iff]
  refine and_congr_right fun _ => and_congr_right fun _ => ⟨?_, fun hchild => ?_⟩
  · rintro ⟨word, rfl, hchild⟩
    exact hchild
  · -- The command is a name of the path, hence a word, and a word tells that it is one.
    have hmem : " ".intercalate words' ∈ p.segments :=
      hchild ▸ List.mem_append_right _ List.mem_cons_self
    have hword := hp _ hmem
    have hone : words' = [" ".intercalate words'] :=
      (joined_words_inj h' (List.forall_mem_singleton.2 hword)).1
        (String.intercalate_singleton ..).symm
    exact ⟨_, hone, hchild⟩

/-- The picture of a path and a command tells both, with one exception. The picture of a directory
    without a command, other than one that lies in the root, is that of the containing directory
    with the name of the directory as the command. -/
theorem previewKey_eq_iff {c d : String} (hp : p.Plain) (hq : q.Plain) (hc : PlainCommand c)
    (hd : PlainCommand d) :
    previewKey p.text c = previewKey q.text d ↔
      (p = q ∧ c = d) ∨
      (c = "" ∧ q ≠ Path.root ∧ p = q.child d) ∨
      (d = "" ∧ p ≠ Path.root ∧ q = p.child c) := by
  rcases hc with ⟨words, hwords, rfl⟩
  rcases hd with ⟨words', hwords', rfl⟩
  have hsame : p = q ↔ p.segments = q.segments := by
    rcases p with ⟨names⟩
    rw [Path.mk.injEq]
  rw [previewKey_eq_iff_pieces hp hq hwords hwords',
    previewPieces_eq_iff (PlainWord.empty_notMem hp) (PlainWord.empty_notMem hq)
      (PlainWord.empty_notMem hwords) (PlainWord.empty_notMem hwords'),
    hsame, joined_words_inj hwords hwords', eq_child_command_iff hp hwords hwords',
    eq_child_command_iff hq hwords' hwords]

theorem plainCommand_empty : PlainCommand "" :=
  ⟨[], fun _ hw => absurd hw List.not_mem_nil, rfl⟩

/-- A word is a command. -/
theorem PlainWord.plainCommand {word : String} (h : PlainWord word) : PlainCommand word :=
  ⟨[word], List.forall_mem_singleton.2 h, String.intercalate_singleton.symm⟩

/-- The picture of a directory is that of a command, and that of no other command of one word. -/
theorem previewKey_eq_iff_docs :
    previewKey "/home/u/docs" "" = previewKey "/home/u" "docs" ∧
      previewKey "/home/u/docs" "" ≠ previewKey "/home/u" "ls" := by
  have hdocs : Path.Plain ⟨["home", "u", "docs"]⟩ := by decide
  have hhome : Path.Plain ⟨["home", "u"]⟩ := by decide
  have hword : PlainWord "docs" := by decide
  have hother : PlainWord "ls" := by decide
  constructor
  · exact (previewKey_eq_iff hdocs hhome plainCommand_empty hword.plainCommand).2
      (.inr (.inl (by decide)))
  · intro hsame
    have hwho := (previewKey_eq_iff hdocs hhome plainCommand_empty hother.plainCommand).1 hsame
    exact absurd hwho (by decide)

/-- So a name does not always tell what it was made of. -/
theorem previewKey_shared :
    ¬∀ (p q : Path) (c d : String), p.Plain → q.Plain → PlainCommand c → PlainCommand d →
      previewKey p.text c = previewKey q.text d → p = q ∧ c = d := by
  intro htells
  have hword : PlainWord "u" := by decide
  have hsame := htells ⟨["home", "u"]⟩ ⟨["home"]⟩ "" "u" (by decide) (by decide)
    plainCommand_empty hword.plainCommand (by decide)
  exact absurd hsame.1 (by decide)

end Shared

end TreeShell
