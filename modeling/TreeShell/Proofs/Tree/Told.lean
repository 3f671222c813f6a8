import TreeShell.Proofs.Tree.Unfold

/-!
# Levels That Stay the Same

Most backends answer the same whenever they are asked for a key. For these the answers need not be
kept with the keys, since a function from keys to levels says them all, and what was said of the
recursion by its exchanges can be said by the keys alone. Whether the recursion succeeds is then a
matter of the levels too: it does if and only if nothing that can be reached is refused.

## Main definitions

* `told`: The keys asked for with the answers to them.
* `Unfolds`, `UnfoldsFrom`: The recursion by these levels.
* `Leads`, `Child`, `Covers`, `RefusedLast`: The ways between keys, and what was asked for.

## Theorems

* `UnfoldsFrom.exists_of_acc`, `UnfoldsFrom.unique`: Where the keys end, the recursion has one
  result.
* `UnfoldsFrom.isOk_iff`: It succeeds if nothing that can be reached is refused, and only then.
* `UnfoldsFrom.covers`: After a success each directory of the result was asked for, by its own key.
-/

namespace TreeShell

variable {κ σ : Type} (level : κ → Except Fault (List (Sprout κ)))

/-- What is said when keys are asked for that have these levels. -/
def told (asked : List κ) : List (Exchange κ) := asked.map fun key => (key, level key)

/-- The directory that `sprouts` stand for by these levels, with the keys asked for below it. -/
def Unfolds (sprouts : List (Sprout κ)) (asked : List κ) (result : Except Fault Dir) : Prop :=
  UnfoldsBy sprouts (told level asked) result

/-- The directory under `key` by these levels, with the keys asked for from there. -/
def UnfoldsFrom (key : κ) (asked : List κ) (result : Except Fault Dir) : Prop :=
  UnfoldsFromBy key (told level asked) result

/-- What each key always gives. -/
def Gives (key : κ) (sprouts : List (Sprout κ)) : Prop := level key = .ok sprouts

/-- The names on the way from one key to another by these levels. -/
abbrev Leads : κ → List String → κ → Prop := LeadsBy (Gives level)

/-- `key` stands in the level of `above`. -/
abbrev Child (above key : κ) : Prop := ChildBy (Gives level) above key

/-- Each readable directory of `root` was asked for once, by the key that its path leads to. -/
abbrev Covers (key : κ) (asked : List κ) (root : Dir) : Prop :=
  CoversBy (Gives level) key asked root

/-- The last key asked for has no level, and it was the first of that kind. -/
def RefusedLast (asked : List κ) (fault : Fault) : Prop := RefusedLastBy (told level asked) fault

variable {level}

theorem told_append (first more : List κ) :
    told level (first ++ more) = told level first ++ told level more := List.map_append

theorem told_cons (key : κ) (later : List κ) :
    told level (key :: later) = (key, level key) :: told level later := rfl

/-- The keys of what is said. -/
theorem map_fst_told (asked : List κ) : (told level asked).map Prod.fst = asked := by
  rw [told, List.map_map]
  exact List.map_id asked

theorem mem_told {asked : List κ} {p : Exchange κ} :
    p ∈ told level asked ↔ p.1 ∈ asked ∧ p.2 = level p.1 := by
  rw [told, List.mem_map]
  constructor
  · rintro ⟨key, hkey, rfl⟩
    exact ⟨hkey, rfl⟩
  · rintro ⟨hkey, hanswer⟩
    exact ⟨p.1, hkey, Prod.ext rfl hanswer.symm⟩

theorem gives_of_told {asked : List κ} {key : κ} {below : List (Sprout κ)}
    (h : (key, .ok below) ∈ told level asked) : Gives level key below := (mem_told.1 h).2.symm

/-- A backend that answers with these levels says what it is told to say. -/
theorem answers_told {ask : κ → Asking σ (List (Sprout κ))}
    (h : ∀ key s, (ask key s).1 = level key) (asked : List κ) (s : σ) :
    ∃ last, Answers ask s (told level asked) last := by
  induction asked generalizing s with
  | nil => exact ⟨s, .nil⟩
  | cons key later ih =>
      rcases ih (ask key s).2 with ⟨last, hlater⟩
      exact ⟨last, .cons (Prod.ext (h key s) rfl) hlater⟩

/-- What is said is determined by the keys if each answer is the level of its key. -/
theorem eq_told_of_forall {said : List (Exchange κ)} (h : ∀ p ∈ said, p.2 = level p.1) :
    said = told level (said.map Prod.fst) := by
  induction said with
  | nil => rfl
  | cons p later ih =>
      rw [List.forall_mem_cons] at h
      rw [List.map_cons, told_cons, ← h.1, ← ih h.2]

/-- And it says nothing else. -/
theorem Answers.eq_told {ask : κ → Asking σ (List (Sprout κ))}
    (h : ∀ key s, (ask key s).1 = level key) {said : List (Exchange κ)} {s last : σ}
    (hsaid : Answers ask s said last) : said = told level (said.map Prod.fst) := by
  refine eq_told_of_forall ?_
  induction hsaid with
  | nil => exact fun p hp => absurd hp List.not_mem_nil
  | @cons s _ _ key _ _ asked _ ih =>
      refine List.forall_mem_cons.2 ⟨?_, ih⟩
      rw [← h key s, asked]

namespace Unfolds

variable {sprouts later below : List (Sprout κ)} {asked inner : List κ}
  {result : Except Fault Dir} {rest : Dir} {name : String}

theorem nil : Unfolds level [] [] (.ok .empty) := UnfoldsBy.nil

theorem leaf (after : Unfolds level later asked (.ok rest)) (node : Node) :
    Unfolds level (.leaf name node :: later) asked (.ok (.entry name node rest)) :=
  UnfoldsBy.leaf after

theorem branch {key : κ} (after : Unfolds level later asked (.ok rest))
    (answer : level key = .ok below) (inside : Unfolds level below inner result) :
    Unfolds level (.branch name key :: later) (asked ++ key :: inner)
      (result.map fun entries => .entry name (.dir entries) rest) := by
  rw [Unfolds, told_append, told_cons, answer]
  exact UnfoldsBy.branch after inside

end Unfolds

namespace UnfoldsFrom

variable {key : κ} {asked : List κ} {result : Except Fault Dir}

theorem listed {below : List (Sprout κ)} {inner : List κ} (answer : level key = .ok below)
    (inside : Unfolds level below inner result) : UnfoldsFrom level key (key :: inner) result := by
  rw [UnfoldsFrom, told_cons, answer]
  exact UnfoldsFromBy.listed inside

/-- It begins with the level of the key, where it comes to a directory. -/
theorem exists_level {root : Dir} (h : UnfoldsFrom level key asked (.ok root)) :
    ∃ below inner, level key = .ok below ∧ asked = key :: inner ∧
      Unfolds level below inner (.ok root) := by
  cases asked with
  | nil => cases h
  | cons k inner =>
      rw [UnfoldsFrom, told_cons] at h
      generalize hanswer : level k = answer at h
      generalize hsaid : told level inner = said at h
      cases h with
      | listed inside =>
          subst hsaid
          exact ⟨_, inner, hanswer, rfl, inside⟩

/-- Where no chain of keys goes on for ever, the recursion has a result. -/
theorem exists_of_acc (h : Acc (fun key above => Child level above key) key) :
    ∃ asked result, UnfoldsFrom level key asked result := by
  -- A backend without a state has these levels.
  let ask : κ → Asking Unit (List (Sprout κ)) := fun key s => (level key, s)
  have hask : ∀ key s, (ask key s).1 = level key := fun _ _ => rfl
  have hacc : Acc (fun key above =>
      ChildBy (fun k below => ∃ s, (ask k s).1 = .ok below) above key) key := by
    refine Subrelation.accessible (fun {next above} hnext => ?_) h
    rcases hnext with ⟨below, ⟨_, hbelow⟩, hfound⟩
    exact ⟨below, hbelow, hfound⟩
  rcases UnfoldsFromBy.exists_of_acc hacc () with ⟨said, result, _, hfrom, hsaid⟩
  have hsame : said = told level (said.map Prod.fst) := hsaid.eq_told hask
  rw [hsame] at hfrom
  exact ⟨_, result, hfrom⟩

/-- The recursion has one result. -/
theorem unique (h : UnfoldsFrom level key asked result) {asked' : List κ}
    {result' : Except Fault Dir} (h' : UnfoldsFrom level key asked' result') :
    asked = asked' ∧ result = result' := by
  let ask : κ → Asking Unit (List (Sprout κ)) := fun key s => (level key, s)
  have hask : ∀ key s, (ask key s).1 = level key := fun _ _ => rfl
  rcases answers_told hask asked () with ⟨_, hasked⟩
  rcases answers_told hask asked' () with ⟨_, hasked'⟩
  rcases UnfoldsFromBy.unique h hasked h' hasked' with ⟨hsame, hresult⟩
  rw [← @map_fst_told _ level asked, hsame, map_fst_told]
  exact ⟨rfl, hresult⟩

/-- It succeeds if no key that can be reached is refused, and only then. -/
theorem isOk_iff (h : UnfoldsFrom level key asked result) :
    (∃ root, result = .ok root) ↔
      ∀ segments k, Leads level key segments k → ∃ below, level k = .ok below := by
  constructor
  · rintro ⟨root, hok⟩ segments k hk
    rcases UnfoldsFromBy.answered h hok
      (fun p hp below hbelow => (mem_told.1 hp).2.trans hbelow) hk with ⟨below, hbelow⟩
    exact ⟨below, gives_of_told hbelow⟩
  · intro hall
    refine (UnfoldsFromBy.isOk_iff h).2 fun p hp => ?_
    rcases UnfoldsFromBy.reached h (fun _ _ => gives_of_told) hp with ⟨segments, hreached⟩
    rw [(mem_told.1 hp).2]
    exact hall segments p.1 hreached

/-- After a success the keys asked for cover the result. -/
theorem covers (h : UnfoldsFrom level key asked result) {root : Dir} (hok : result = .ok root)
    (hlevels : ∀ key below, level key = .ok below → Sprout.Closed below)
    (hdistinct : ∀ k ∈ asked, ∀ below, level k = .ok below → (below.map Sprout.name).Nodup) :
    Covers level key asked root := by
  have hcovers := UnfoldsFromBy.covers h hok (fun _ _ => gives_of_told) fun k below hm =>
    ⟨hlevels k below (gives_of_told hm), hdistinct k (mem_told.1 hm).1 below (gives_of_told hm)⟩
  rwa [map_fst_told] at hcovers

end UnfoldsFrom

end TreeShell
