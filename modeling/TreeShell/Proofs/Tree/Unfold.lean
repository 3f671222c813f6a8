import Mathlib.Data.Fintype.Card
import Mathlib.Data.List.Forall2
import Mathlib.Data.Set.Finite.Basic
import TreeShell.Proofs.Tree.Folders
import TreeShell.Tree.Grow

/-!
# The Recursive Meaning of a Build

A build keeps a stack of the directories that it has still to ask for. What it means needs no stack:
the directory under a key is its level, with the directory under its own key in the place of each
branch. `UnfoldsBy` says so, and says at the same time in which order the levels are asked for. The
entries of a level are gone through from the last to the first, and the first refusal ends it all.

The order belongs to the relation because a failure has no other meaning than the first refusal in
that order. It costs little, since both readings recurse alike. What was asked for is a list of keys
with the answers to them and no set: one key may stand at several places, each place asks for it
again, and the answers need not be alike. Whether a backend gives these answers in this order is a
question of its own (`Answers`).

That the recursion comes to an end is a matter of the backend. It does where no chain of keys, each
found in the level of the one before it, goes on for ever (`UnfoldsFromBy.exists_of_acc`).

## Main definitions

* `Exchange`: A key that was asked for, and the answer.
* `Answers`: Asked for one key after another, a backend gives these answers.
* `UnfoldsBy`: The directory that a level stands for, with what was asked for below it.
* `UnfoldsFromBy`: The directory under a key, with what was asked for from there.
* `LeadsBy`, `LeadsBelow`: The names that lead from a key, or from a level, to another key.
* `ChildBy`: A key found in the level of another.
* `Sprout.Closed`: The leaves of a level are complete.
* `CoversBy`: One key asked for, for each readable directory.
* `RefusedLastBy`: Nothing was asked for after the first refusal.

## Theorems

* `ChildBy.acc_of_finite`, `UnfoldsFromBy.exists_of_acc`: Where the keys end, the recursion has a
  result.
* `UnfoldsFromBy.unique`: It has no other.
* `UnfoldsFromBy.isOk_iff`: It succeeds if nothing is refused.
* `UnfoldsFromBy.refusedLast`: Else the first refusal is the last exchange.
* `UnfoldsFromBy.covers`: After a success each directory of the result was asked for, by its own
  key.
-/

namespace TreeShell

variable {κ σ α : Type}

/-- A key that was asked for, and the answer. -/
abbrev Exchange (κ : Type) := κ × Except Fault (List (Sprout κ))

/-- Asked for one key after another, from one state to another, the backend gives these answers. -/
inductive Answers (ask : κ → Asking σ α) : σ → List (κ × Except Fault α) → σ → Prop where
  | nil {s : σ} : Answers ask s [] s
  | cons {s next last : σ} {key : κ} {answer : Except Fault α} {later : List (κ × Except Fault α)}
      (asked : ask key s = (answer, next)) (rest : Answers ask next later last) :
      Answers ask s ((key, answer) :: later) last

namespace Answers

variable {ask : κ → Asking σ α} {s middle last : σ} {said more : List (κ × Except Fault α)}

theorem append (h : Answers ask s said middle) (h' : Answers ask middle more last) :
    Answers ask s (said ++ more) last := by
  induction h with
  | nil => exact h'
  | cons asked _ ih => exact .cons asked (ih h')

/-- What was said earlier came first, and then the key was asked for. -/
theorem of_append_cons {key : κ} {answer : Except Fault α}
    (h : Answers ask s (said ++ (key, answer) :: more) last) :
    ∃ middle next, Answers ask s said middle ∧ ask key middle = (answer, next) ∧
      Answers ask next more last := by
  induction said generalizing s with
  | nil =>
      cases h with
      | cons asked rest => exact ⟨s, _, .nil, asked, rest⟩
  | cons p said ih =>
      cases h with
      | cons asked rest =>
          rcases ih rest with ⟨middle, next, hsaid, hkey, hmore⟩
          exact ⟨middle, next, .cons asked hsaid, hkey, hmore⟩

end Answers

/-- `UnfoldsBy sprouts said result`: the branches of `sprouts`, asked for from the last to the first
    and each with all that is below it, are asked for and answered as in `said`, and make of
    `sprouts` the directory `result`, or fail with it. -/
inductive UnfoldsBy : List (Sprout κ) → List (Exchange κ) → Except Fault Dir → Prop where
  | nil : UnfoldsBy [] [] (.ok .empty)
  /-- A leaf stays as it is. -/
  | leaf {name : String} {node : Node} {later : List (Sprout κ)} {said : List (Exchange κ)}
      {rest : Dir} (after : UnfoldsBy later said (.ok rest)) :
      UnfoldsBy (.leaf name node :: later) said (.ok (.entry name node rest))
  /-- A branch becomes what its own level stands for, once all later entries are done. -/
  | branch {name : String} {key : κ} {later below : List (Sprout κ)}
      {said inner : List (Exchange κ)} {rest : Dir} {result : Except Fault Dir}
      (after : UnfoldsBy later said (.ok rest)) (inside : UnfoldsBy below inner result) :
      UnfoldsBy (.branch name key :: later) (said ++ (key, .ok below) :: inner)
        (result.map fun entries => .entry name (.dir entries) rest)
  /-- A branch whose level is refused ends it all. -/
  | refused {name : String} {key : κ} {later : List (Sprout κ)} {said : List (Exchange κ)}
      {rest : Dir} {fault : Fault} (after : UnfoldsBy later said (.ok rest)) :
      UnfoldsBy (.branch name key :: later) (said ++ [(key, .error fault)]) (.error fault)
  /-- An entry before a refused one is not looked at. -/
  | broken {sprout : Sprout κ} {later : List (Sprout κ)} {said : List (Exchange κ)} {fault : Fault}
      (after : UnfoldsBy later said (.error fault)) :
      UnfoldsBy (sprout :: later) said (.error fault)

/-- `UnfoldsFromBy key said result`: `key` is asked for, then all that is below it. -/
inductive UnfoldsFromBy (key : κ) : List (Exchange κ) → Except Fault Dir → Prop where
  | listed {below : List (Sprout κ)} {inner : List (Exchange κ)} {result : Except Fault Dir}
      (inside : UnfoldsBy below inner result) :
      UnfoldsFromBy key ((key, .ok below) :: inner) result
  | refused {fault : Fault} : UnfoldsFromBy key [(key, .error fault)] (.error fault)

/-- The names on the way from one key to another, level by level. -/
inductive LeadsBy (gives : κ → List (Sprout κ) → Prop) : κ → List String → κ → Prop where
  | here {key : κ} : LeadsBy gives key [] key
  | step {key next last : κ} {name : String} {rest : List String} {sprouts : List (Sprout κ)}
      (answer : gives key sprouts) (found : .branch name next ∈ sprouts)
      (onwards : LeadsBy gives next rest last) : LeadsBy gives key (name :: rest) last

/-- The names on the way from a level to a key: first those of a branch, then on from there. -/
def LeadsBelow (gives : κ → List (Sprout κ) → Prop) (sprouts : List (Sprout κ))
    (segments : List String) (key : κ) : Prop :=
  ∃ name first rest, segments = name :: rest ∧ .branch name first ∈ sprouts ∧
    LeadsBy gives first rest key

/-- `key` stands in a level of `above`. -/
def ChildBy (gives : κ → List (Sprout κ) → Prop) (above key : κ) : Prop :=
  ∃ below, gives above below ∧ ∃ name, .branch name key ∈ below

/-- No leaf of a level is a readable directory, which would have entries to ask for. -/
def Sprout.Closed (sprouts : List (Sprout κ)) : Prop :=
  ∀ name entries, .leaf name (.dir entries) ∉ sprouts

/-- Each readable directory of `root` was asked for once, by the key that its path leads to from
    `key`, and nothing else was asked for. -/
def CoversBy (gives : κ → List (Sprout κ) → Prop) (key : κ) (asked : List κ) (root : Dir) : Prop :=
  ∃ places : List (List String), places.Nodup ∧
    (∀ segments, segments ∈ places ↔ ∃ entries, root.dirAt? segments = some entries) ∧
    List.Forall₂ (LeadsBy gives key) places asked

/-- The last key asked for was refused, and it was the first to be. -/
def RefusedLastBy (said : List (Exchange κ)) (fault : Fault) : Prop :=
  ∃ earlier last, said = earlier ++ [(last, .error fault)] ∧
    ∀ p ∈ earlier, ∃ below, p.2 = .ok below

theorem Sprout.Closed.tail {sprout : Sprout κ} {later : List (Sprout κ)}
    (h : Closed (sprout :: later)) : Closed later :=
  fun name entries hm => h name entries (List.mem_cons_of_mem sprout hm)

variable {gives : κ → List (Sprout κ) → Prop}

/-- A way from a level is a way from a longer one. -/
theorem LeadsBelow.cons {later : List (Sprout κ)} {segments : List String} {key : κ}
    (h : LeadsBelow gives later segments key) (sprout : Sprout κ) :
    LeadsBelow gives (sprout :: later) segments key := by
  rcases h with ⟨name, first, rest, hsegments, hfirst, hrest⟩
  exact ⟨name, first, rest, hsegments, List.mem_cons_of_mem sprout hfirst, hrest⟩

/-- Below a branch the way begins with the branch. -/
theorem LeadsBelow.branch {key last : κ} {below : List (Sprout κ)} {segments : List String}
    (answer : gives key below) (h : LeadsBelow gives below segments last) (name : String)
    (later : List (Sprout κ)) :
    LeadsBelow gives (.branch name key :: later) (name :: segments) last := by
  rcases h with ⟨next, first, rest, rfl, hfirst, hrest⟩
  exact ⟨name, key, next :: rest, rfl, List.mem_cons_self, .step answer hfirst hrest⟩

theorem LeadsBy.append {key middle last : κ} {first more : List String}
    (h : LeadsBy gives key first middle) (h' : LeadsBy gives middle more last) :
    LeadsBy gives key (first ++ more) last := by
  induction h with
  | here => exact h'
  | step answer found _ ih => exact .step answer found (ih h')

/-- A set of keys that is closed under going down one level is closed under going down. -/
theorem LeadsBy.mem {asked : List κ} (hclosed : ∀ k ∈ asked, ∀ sprouts, gives k sprouts →
      ∀ name next, .branch name next ∈ sprouts → next ∈ asked)
    {key last : κ} {segments : List String} (h : LeadsBy gives key segments last)
    (hkey : key ∈ asked) : last ∈ asked := by
  induction h with
  | here => exact hkey
  | step answer found _ ih => exact ih (hclosed _ hkey _ answer _ _ found)

/-- Where only so many keys can be reached, no chain of them goes on for ever unless it comes back
    to one of them. -/
theorem ChildBy.acc_of_finite {key : κ}
    (hfinite : {k | ∃ segments, LeadsBy gives key segments k}.Finite)
    (hacyclic : ∀ segments k, LeadsBy gives key segments k →
      ∀ name rest, ¬ LeadsBy gives k (name :: rest) k) :
    Acc (fun key above => ChildBy gives above key) key := by
  let Reached : Type _ := {k // ∃ segments, LeadsBy gives key segments k}
  have : Finite Reached := hfinite
  -- Below each other means some levels below, since that is transitive.
  let Under (k above : Reached) : Prop := ∃ name rest, LeadsBy gives above.1 (name :: rest) k.1
  have : IsTrans Reached Under := ⟨fun a b c ⟨_, _, hab⟩ ⟨_, _, hbc⟩ => ⟨_, _, hbc.append hab⟩⟩
  have : Std.Irrefl Under := ⟨fun ⟨k, segments, hk⟩ ⟨name, rest, hcycle⟩ =>
    hacyclic segments k hk name rest hcycle⟩
  have hwf : WellFounded Under := Finite.wellFounded_of_trans_of_irrefl Under
  have hacc (k : Reached) : Acc (fun key above => ChildBy gives above key) k.1 := by
    induction k using hwf.induction with
    | h k ih =>
        rcases k with ⟨k, segments, hk⟩
        refine .intro k fun next hnext => ?_
        rcases hnext with ⟨below, answer, name, found⟩
        have hstep : LeadsBy gives k [name] next := .step answer found .here
        exact ih ⟨next, _, hk.append hstep⟩ ⟨name, [], hstep⟩
  exact hacc ⟨key, [], .here⟩

namespace UnfoldsBy

variable {ask : κ → Asking σ (List (Sprout κ))} {sprouts : List (Sprout κ)}
  {said : List (Exchange κ)} {result : Except Fault Dir} {s last : σ}

/-- The recursion over a level has a result where it has one over each level found in it. -/
theorem exists_of_forall (sprouts : List (Sprout κ))
    (h : ∀ name key, .branch name key ∈ sprouts → ∀ s below next, ask key s = (.ok below, next) →
      ∃ said result last, UnfoldsBy below said result ∧ Answers ask next said last) (s : σ) :
    ∃ said result last, UnfoldsBy sprouts said result ∧ Answers ask s said last := by
  induction sprouts with
  | nil => exact ⟨[], _, s, .nil, .nil⟩
  | cons sprout later ih =>
      rcases ih fun name key hm => h name key (List.mem_cons_of_mem _ hm) with
        ⟨said, rest, middle, hrest, hsaid⟩
      cases rest with
      | error fault => exact ⟨said, _, middle, .broken hrest, hsaid⟩
      | ok rest =>
          cases sprout with
          | leaf name node => exact ⟨said, _, middle, .leaf hrest, hsaid⟩
          | branch name key =>
              rcases hasked : ask key middle with ⟨fault | below, next⟩
              · exact ⟨_, _, next, .refused hrest, hsaid.append (.cons hasked .nil)⟩
              · rcases h name key List.mem_cons_self middle below next hasked with
                  ⟨inner, result, last, hinside, hinner⟩
                exact ⟨_, _, last, .branch hrest hinside, hsaid.append (.cons hasked hinner)⟩

/-- The recursion has one result with the answers of one backend. -/
theorem unique (h : UnfoldsBy sprouts said result) (hsaid : Answers ask s said last)
    {said' : List (Exchange κ)} {result' : Except Fault Dir} {last' : σ}
    (h' : UnfoldsBy sprouts said' result') (hsaid' : Answers ask s said' last') :
    said = said' ∧ result = result' ∧ last = last' := by
  -- Both treat the later entries alike, so one answer decides how both treat the first.
  induction h generalizing said' result' s last last' with
  | nil =>
      cases h'
      cases hsaid
      cases hsaid'
      exact ⟨rfl, rfl, rfl⟩
  | leaf _ ih =>
      cases h' with
      | leaf after =>
          rcases ih hsaid after hsaid' with ⟨rfl, hrest, rfl⟩
          cases hrest
          exact ⟨rfl, rfl, rfl⟩
      | broken after => cases (ih hsaid after hsaid').2.1
  | branch _ _ ihafter ihinside =>
      rcases hsaid.of_append_cons with ⟨_, _, hearlier, hasked, hinner⟩
      cases h' with
      | branch after inside =>
          rcases hsaid'.of_append_cons with ⟨_, _, hearlier', hasked', hinner'⟩
          rcases ihafter hearlier after hearlier' with ⟨rfl, hrest, rfl⟩
          cases hrest
          cases hasked.symm.trans hasked'
          rcases ihinside hinner inside hinner' with ⟨rfl, rfl, rfl⟩
          exact ⟨rfl, rfl, rfl⟩
      | refused after =>
          rcases hsaid'.of_append_cons with ⟨_, _, hearlier', hasked', _⟩
          rcases ihafter hearlier after hearlier' with ⟨_, _, rfl⟩
          cases hasked.symm.trans hasked'
      | broken after => cases (ihafter hearlier after hsaid').2.1
  | refused _ ih =>
      rcases hsaid.of_append_cons with ⟨_, _, hearlier, hasked, hnone⟩
      cases hnone
      cases h' with
      | branch after inside =>
          rcases hsaid'.of_append_cons with ⟨_, _, hearlier', hasked', _⟩
          rcases ih hearlier after hearlier' with ⟨_, _, rfl⟩
          cases hasked.symm.trans hasked'
      | refused after =>
          rcases hsaid'.of_append_cons with ⟨_, _, hearlier', hasked', hnone'⟩
          cases hnone'
          rcases ih hearlier after hearlier' with ⟨rfl, _, rfl⟩
          cases hasked.symm.trans hasked'
          exact ⟨rfl, rfl, rfl⟩
      | broken after => cases (ih hearlier after hsaid').2.1
  | broken _ ih =>
      cases h' with
      | broken after =>
          rcases ih hsaid after hsaid' with ⟨rfl, hfault, rfl⟩
          cases hfault
          exact ⟨rfl, rfl, rfl⟩
      | leaf after => cases (ih hsaid after hsaid').2.1
      | branch after =>
          rcases hsaid'.of_append_cons with ⟨_, _, hearlier', _⟩
          cases (ih hsaid after hearlier').2.1
      | refused after =>
          rcases hsaid'.of_append_cons with ⟨_, _, hearlier', _⟩
          cases (ih hsaid after hearlier').2.1

/-- Only keys that can be reached are asked for. -/
theorem reached (h : UnfoldsBy sprouts said result)
    (hgives : ∀ key below, (key, .ok below) ∈ said → gives key below) {p : Exchange κ}
    (hp : p ∈ said) : ∃ segments, LeadsBelow gives sprouts segments p.1 := by
  induction h with
  | nil => cases hp
  | leaf _ ih =>
      rcases ih hgives hp with ⟨segments, hleads⟩
      exact ⟨segments, hleads.cons _⟩
  | broken _ ih =>
      rcases ih hgives hp with ⟨segments, hleads⟩
      exact ⟨segments, hleads.cons _⟩
  | refused _ ih =>
      rcases List.mem_append.1 hp with hp | hp
      · rcases ih (fun key below hm => hgives key below (List.mem_append_left _ hm)) hp with
          ⟨segments, hleads⟩
        exact ⟨segments, hleads.cons _⟩
      · rw [List.mem_singleton.1 hp]
        exact ⟨_, _, _, [], rfl, List.mem_cons_self, .here⟩
  | branch _ _ ihafter ihinside =>
      rcases List.mem_append.1 hp with hp | hp
      · rcases ihafter (fun key below hm => hgives key below (List.mem_append_left _ hm)) hp with
          ⟨segments, hleads⟩
        exact ⟨segments, hleads.cons _⟩
      · have hhere := hgives _ _ (List.mem_append_right _ List.mem_cons_self)
        rcases List.mem_cons.1 hp with rfl | hp
        · exact ⟨_, _, _, [], rfl, List.mem_cons_self, .here⟩
        · rcases ihinside (fun key below hm => hgives key below
              (List.mem_append_right _ (List.mem_cons_of_mem _ hm))) hp with ⟨segments, hleads⟩
          exact ⟨_, hleads.branch hhere _ _⟩

/-- After a success the keys of all branches were asked for. -/
theorem branch_mem (h : UnfoldsBy sprouts said result) {entries : Dir} (hok : result = .ok entries)
    {name : String} {key : κ} (hkey : .branch name key ∈ sprouts) : key ∈ said.map Prod.fst := by
  induction h generalizing entries with
  | nil => cases hkey
  | leaf _ ih =>
      rcases List.mem_cons.1 hkey with hkey | hkey
      · cases hkey
      · exact ih rfl hkey
  | branch _ _ ih =>
      rw [List.map_append]
      rcases List.mem_cons.1 hkey with hkey | hkey
      · cases hkey
        exact List.mem_append_right _ List.mem_cons_self
      · exact List.mem_append_left _ (ih rfl hkey)
  | _ => cases hok

/-- After a success every key asked for had a level, and the keys found there were asked for. -/
theorem answered (h : UnfoldsBy sprouts said result) {entries : Dir} (hok : result = .ok entries)
    {p : Exchange κ} (hp : p ∈ said) :
    ∃ below, p.2 = .ok below ∧
      ∀ name next, .branch name next ∈ below → next ∈ said.map Prod.fst := by
  induction h generalizing entries with
  | nil => cases hp
  | leaf _ ih => exact ih rfl hp
  | @branch _ _ _ below _ _ _ result _ inside ihafter ihinside =>
      cases result with
      | error => cases hok
      | ok child =>
          rw [List.map_append]
          rcases List.mem_append.1 hp with hp | hp
          · rcases ihafter rfl hp with ⟨below, hbelow, hnext⟩
            exact ⟨below, hbelow, fun name next hm => List.mem_append_left _ (hnext name next hm)⟩
          · rcases List.mem_cons.1 hp with rfl | hp
            · exact ⟨below, rfl, fun name next hm =>
                List.mem_append_right _ (List.mem_cons_of_mem _ (inside.branch_mem rfl hm))⟩
            · rcases ihinside rfl hp with ⟨below, hbelow, hnext⟩
              exact ⟨below, hbelow, fun name next hm =>
                List.mem_append_right _ (List.mem_cons_of_mem _ (hnext name next hm))⟩
  | _ => cases hok

/-- After a failure the last key asked for was refused, and it was the first to be. -/
theorem refusedLast (h : UnfoldsBy sprouts said result) {fault : Fault}
    (herror : result = .error fault) : RefusedLastBy said fault := by
  induction h with
  | nil => cases herror
  | leaf => cases herror
  | broken _ ih => exact ih herror
  | @refused _ key _ said _ _ after _ =>
      cases herror
      refine ⟨said, key, rfl, fun p hp => ?_⟩
      rcases after.answered rfl hp with ⟨below, hbelow, _⟩
      exact ⟨below, hbelow⟩
  | @branch _ key _ below said _ _ result after _ _ ihinside =>
      cases result with
      | ok => cases herror
      | error =>
          rcases ihinside herror with ⟨earlier, last, rfl, hearlier⟩
          refine ⟨said ++ (key, .ok below) :: earlier, last, by simp, fun p hp => ?_⟩
          rcases List.mem_append.1 hp with hp | hp
          · rcases after.answered rfl hp with ⟨below, hbelow, _⟩
            exact ⟨below, hbelow⟩
          · rcases List.mem_cons.1 hp with rfl | hp
            · exact ⟨below, rfl⟩
            · exact hearlier p hp

/-- The names of the directory are those of the level, in order. -/
theorem names_eq (h : UnfoldsBy sprouts said result) {entries : Dir} (hok : result = .ok entries) :
    entries.names = sprouts.map Sprout.name := by
  induction h generalizing entries with
  | nil =>
      cases hok
      rfl
  | leaf _ ih =>
      cases hok
      exact congrArg _ (ih rfl)
  | @branch _ _ _ _ _ _ _ result _ _ ih =>
      cases result with
      | error => cases hok
      | ok child =>
          cases hok
          exact congrArg _ (ih rfl)
  | _ => cases hok

/-- Distinct names in the levels make distinct names in the directories below. -/
theorem below_nodup (h : UnfoldsBy sprouts said result) {entries : Dir} (hok : result = .ok entries)
    (hclosed : Sprout.Closed sprouts)
    (hlevels : ∀ key below, (key, .ok below) ∈ said →
      Sprout.Closed below ∧ (below.map Sprout.name).Nodup) :
    entries.Below fun d => d.names.Nodup := by
  induction h generalizing entries with
  | nil =>
      cases hok
      trivial
  | @leaf name node _ _ _ _ ih =>
      cases hok
      refine ⟨?_, ih rfl hclosed.tail hlevels⟩
      cases node with
      | dir child => exact absurd List.mem_cons_self (hclosed name child)
      | denied => trivial
      | file => trivial
  | @branch _ key later below said inner _ result _ inside ihafter ihinside =>
      cases result with
      | error => cases hok
      | ok child =>
          cases hok
          rcases hlevels key below (List.mem_append_right _ List.mem_cons_self) with
            ⟨hbelow, hdistinct⟩
          have hnames : child.names.Nodup := by
            rw [inside.names_eq rfl]
            exact hdistinct
          refine ⟨⟨hnames, ?_⟩, ?_⟩
          · exact ihinside rfl hbelow fun k sprouts hm => hlevels k sprouts
              (List.mem_append_right _ (List.mem_cons_of_mem _ hm))
          · exact ihafter rfl hclosed.tail fun k sprouts hm =>
              hlevels k sprouts (List.mem_append_left _ hm)
  | _ => cases hok

/-- The readable directories below stand in the order in which their keys were asked for. -/
theorem leads (h : UnfoldsBy sprouts said result) {entries : Dir} (hok : result = .ok entries)
    (hclosed : Sprout.Closed sprouts)
    (hlevels : ∀ key below, (key, .ok below) ∈ said → gives key below ∧ Sprout.Closed below) :
    List.Forall₂ (LeadsBelow gives sprouts) entries.foldersBelow (said.map Prod.fst) := by
  induction h generalizing entries with
  | nil =>
      cases hok
      exact .nil
  | @leaf name node _ _ _ _ ih =>
      cases hok
      have hfolders : node.folders = [] := by
        cases node with
        | dir child => exact absurd List.mem_cons_self (hclosed name child)
        | denied => rfl
        | file => rfl
      rw [Dir.foldersBelow, hfolders, List.map_nil, List.append_nil]
      exact (ih rfl hclosed.tail hlevels).imp fun _ _ hleads => hleads.cons _
  | @branch name key later below said inner _ result _ _ ihafter ihinside =>
      cases result with
      | error => cases hok
      | ok child =>
          cases hok
          rcases hlevels key below (List.mem_append_right _ List.mem_cons_self) with
            ⟨answer, hbelow⟩
          have hafter := ihafter rfl hclosed.tail fun k sprouts hm =>
            hlevels k sprouts (List.mem_append_left _ hm)
          have hinside := ihinside rfl hbelow fun k sprouts hm => hlevels k sprouts
            (List.mem_append_right _ (List.mem_cons_of_mem _ hm))
          rw [Dir.foldersBelow, Node.folders, List.map_cons, List.map_append, List.map_cons]
          refine List.rel_append (hafter.imp fun _ _ hleads => hleads.cons _)
            (.cons ⟨name, key, [], rfl, List.mem_cons_self, .here⟩ ?_)
          rw [List.forall₂_map_left_iff]
          exact hinside.imp fun _ _ hleads => hleads.branch answer name later
  | _ => cases hok

end UnfoldsBy

namespace UnfoldsFromBy

variable {ask : κ → Asking σ (List (Sprout κ))} {key : κ} {said : List (Exchange κ)}
  {result : Except Fault Dir} {s last : σ}

/-- Where no chain of keys goes on for ever, the recursion has a result. -/
theorem exists_of_acc
    (h : Acc (fun key above => ChildBy (fun k below => ∃ s, (ask k s).1 = .ok below) above key) key)
    (s : σ) : ∃ said result last, UnfoldsFromBy key said result ∧ Answers ask s said last := by
  induction h generalizing s with
  | intro key _ ih =>
      rcases hasked : ask key s with ⟨fault | below, next⟩
      · exact ⟨_, _, next, .refused, .cons hasked .nil⟩
      · have hbranch : ∀ name next, .branch name next ∈ below → ∀ s sprouts s',
            ask next s = (.ok sprouts, s') →
            ∃ said result last, UnfoldsBy sprouts said result ∧ Answers ask s' said last := by
          intro name next hnext s sprouts s' hsprouts
          rcases ih next ⟨below, ⟨_, congrArg Prod.fst hasked⟩, name, hnext⟩ s with
            ⟨_, _, last, hfrom, hsaid⟩
          cases hfrom with
          | listed inside =>
              rcases hsaid with _ | ⟨hasked', hinner⟩
              cases hsprouts.symm.trans hasked'
              exact ⟨_, _, last, inside, hinner⟩
          | refused =>
              rcases hsaid with _ | ⟨hasked', _⟩
              cases hsprouts.symm.trans hasked'
        rcases UnfoldsBy.exists_of_forall below hbranch next with ⟨_, _, last, hinside, hinner⟩
        exact ⟨_, _, last, .listed hinside, .cons hasked hinner⟩

/-- The recursion has one result with the answers of one backend. -/
theorem unique (h : UnfoldsFromBy key said result) (hsaid : Answers ask s said last)
    {said' : List (Exchange κ)} {result' : Except Fault Dir} {last' : σ}
    (h' : UnfoldsFromBy key said' result') (hsaid' : Answers ask s said' last') :
    said = said' ∧ result = result' := by
  rcases h with ⟨inside⟩ | _
  all_goals
    rcases hsaid with _ | ⟨hasked, hinner⟩
    rcases h' with ⟨inside'⟩ | _
    all_goals
      rcases hsaid' with _ | ⟨hasked', hinner'⟩
      cases hasked.symm.trans hasked'
  · rcases inside.unique hinner inside' hinner' with ⟨rfl, rfl, _⟩
    exact ⟨rfl, rfl⟩
  · exact ⟨rfl, rfl⟩

/-- The key itself is asked for, and else only keys that can be reached from it. -/
theorem reached (h : UnfoldsFromBy key said result)
    (hgives : ∀ k below, (k, .ok below) ∈ said → gives k below) {p : Exchange κ} (hp : p ∈ said) :
    ∃ segments, LeadsBy gives key segments p.1 := by
  cases h with
  | refused =>
      rw [List.mem_singleton.1 hp]
      exact ⟨[], .here⟩
  | listed inside =>
      rcases List.mem_cons.1 hp with rfl | hp
      · exact ⟨[], .here⟩
      · rcases inside.reached (fun k below hm => hgives k below (List.mem_cons_of_mem _ hm)) hp with
          ⟨_, name, first, rest, rfl, hfirst, hrest⟩
        exact ⟨name :: rest, .step (hgives key _ List.mem_cons_self) hfirst hrest⟩

/-- After a success every key that can be reached was asked for, and none was refused. -/
theorem answered (h : UnfoldsFromBy key said result) {root : Dir} (hok : result = .ok root)
    (hgives : ∀ p ∈ said, ∀ below, gives p.1 below → p.2 = .ok below) {segments : List String}
    {k : κ} (hk : LeadsBy gives key segments k) : ∃ below, (k, .ok below) ∈ said := by
  cases h with
  | refused => cases hok
  | @listed below inner _ inside =>
      have hall : ∀ p ∈ (key, .ok below) :: inner, ∃ sprouts, p.2 = .ok sprouts ∧
          ∀ name next, .branch name next ∈ sprouts →
            next ∈ ((key, .ok below) :: inner).map Prod.fst := by
        intro p hp
        rcases List.mem_cons.1 hp with rfl | hp
        · exact ⟨below, rfl, fun name next hm =>
            List.mem_cons_of_mem _ (inside.branch_mem hok hm)⟩
        · rcases inside.answered hok hp with ⟨sprouts, hsprouts, hnext⟩
          exact ⟨sprouts, hsprouts, fun name next hm => List.mem_cons_of_mem _ (hnext name next hm)⟩
      have hmem : k ∈ ((key, .ok below) :: inner).map Prod.fst := by
        refine hk.mem (fun k hk sprouts hsprouts => ?_) List.mem_cons_self
        rcases List.mem_map.1 hk with ⟨p, hp, rfl⟩
        rcases hall p hp with ⟨sprouts', hsprouts', hnext⟩
        cases hsprouts'.symm.trans (hgives p hp sprouts hsprouts)
        exact hnext
      rcases List.mem_map.1 hmem with ⟨⟨k, answer⟩, hp, rfl⟩
      rcases hall _ hp with ⟨sprouts, hsprouts, _⟩
      cases hsprouts
      exact ⟨sprouts, hp⟩

/-- After a failure the last key asked for was refused, and it was the first to be. -/
theorem refusedLast (h : UnfoldsFromBy key said result) {fault : Fault}
    (herror : result = .error fault) : RefusedLastBy said fault := by
  cases h with
  | refused =>
      cases herror
      exact ⟨[], key, rfl, fun p hp => by cases hp⟩
  | @listed below _ _ inside =>
      rcases inside.refusedLast herror with ⟨earlier, last, rfl, hearlier⟩
      refine ⟨(key, .ok below) :: earlier, last, rfl, fun p hp => ?_⟩
      rcases List.mem_cons.1 hp with rfl | hp
      · exact ⟨below, rfl⟩
      · exact hearlier p hp

/-- It succeeds if nothing that is asked for is refused, and only then. -/
theorem isOk_iff (h : UnfoldsFromBy key said result) :
    (∃ root, result = .ok root) ↔ ∀ p ∈ said, ∃ below, p.2 = .ok below := by
  constructor
  · rintro ⟨root, hok⟩ p hp
    cases h with
    | refused => cases hok
    | listed inside =>
        rcases List.mem_cons.1 hp with rfl | hp
        · exact ⟨_, rfl⟩
        · rcases inside.answered hok hp with ⟨below, hbelow, _⟩
          exact ⟨below, hbelow⟩
  · intro hall
    cases hresult : result with
    | ok root => exact ⟨root, rfl⟩
    | error fault =>
        rcases h.refusedLast hresult with ⟨earlier, last, rfl, _⟩
        rcases hall _ (List.mem_append_right earlier List.mem_cons_self) with ⟨below, hbelow⟩
        cases hbelow

/-- Its names are distinct in every directory if those of every level are. -/
theorem distinct (h : UnfoldsFromBy key said result) {root : Dir} (hok : result = .ok root)
    (hlevels : ∀ k below, (k, .ok below) ∈ said →
      Sprout.Closed below ∧ (below.map Sprout.name).Nodup) : root.Distinct := by
  cases h with
  | refused => cases hok
  | @listed below _ _ inside =>
      rcases hlevels key below List.mem_cons_self with ⟨hclosed, hnames⟩
      rw [← inside.names_eq hok] at hnames
      exact ⟨hnames, inside.below_nodup hok hclosed fun k sprouts hm =>
        hlevels k sprouts (List.mem_cons_of_mem _ hm)⟩

/-- After a success the keys asked for cover the result. -/
theorem covers (h : UnfoldsFromBy key said result) {root : Dir} (hok : result = .ok root)
    (hgives : ∀ k below, (k, .ok below) ∈ said → gives k below)
    (hlevels : ∀ k below, (k, .ok below) ∈ said →
      Sprout.Closed below ∧ (below.map Sprout.name).Nodup) :
    CoversBy gives key (said.map Prod.fst) root := by
  have hroot : root.Distinct := h.distinct hok hlevels
  refine ⟨root.folders, Dir.nodup_folders hroot, fun _ => Dir.mem_folders_iff hroot, ?_⟩
  cases h with
  | refused => cases hok
  | @listed below inner _ inside =>
      have hinner : ∀ k sprouts, (k, .ok sprouts) ∈ inner →
          gives k sprouts ∧ Sprout.Closed sprouts :=
        fun k sprouts hm => ⟨hgives k sprouts (List.mem_cons_of_mem _ hm),
          (hlevels k sprouts (List.mem_cons_of_mem _ hm)).1⟩
      have hinside := inside.leads hok (hlevels key below List.mem_cons_self).1 hinner
      refine .cons .here (hinside.imp ?_)
      rintro segments last ⟨name, first, rest, rfl, hfirst, hrest⟩
      exact .step (hgives key below List.mem_cons_self) hfirst hrest

end UnfoldsFromBy

end TreeShell
