import TreeShell.Tree.Grow

/-!
# Runs of the Loop

`grow` goes on while something is pending, and it may never end: the stack can grow at every step,
and one key may be met again in many places. Where it ends it does so after finitely many requests,
and `GrowsTo` says after which ones and with what. A result of `grow` is the end of such a run and
the end of such a run is the result, so whatever is to be shown of a build that ends is shown by
induction on its run. A build that has no run never ends.

What the loop makes of the tree is only what planting made of it. That is said here once, for any
property that planting keeps. Where no answer of a backend depends on its state, neither does the
run.

## Main definitions

* `stacked`: What is pending after a level came back.
* `GrowsTo`: The loop ends, after these requests and with this result.
* `growFor`: A run with no more than so many requests.

## Theorems

* `grow_eq_some_iff`, `grow_eq_none_iff`: The results of the loop are those of its runs.
* `growsTo_of_growFor`: A short run can be found by going through it.
* `GrowsTo.unique`: The loop has at most one run.
* `GrowsTo.keeps_tree`: What planting a level keeps of the tree, the loop keeps.
* `GrowsTo.exists_from`, `grow_answer`: Where no answer depends on the state, neither does the run.
-/

namespace TreeShell

variable {κ σ : Type}

/-- What is pending after the level of the directory at `segments` came back. -/
def stacked (segments : List String) (sprouts : List (Sprout κ))
    (pending : List (κ × List String)) : List (κ × List String) :=
  (sprouts.filterMap (Sprout.pending? segments)).reverse ++ pending

/-- An entry of a level is pending below all later ones. -/
theorem stacked_cons (segments : List String) (sprout : Sprout κ) (later : List (Sprout κ))
    (pending : List (κ × List String)) :
    stacked segments (sprout :: later) pending =
      stacked segments later ((sprout.pending? segments).toList ++ pending) := by
  rw [stacked, stacked, List.filterMap_cons]
  cases sprout.pending? segments with
  | none => rfl
  | some next => simp

/-- What is pending after a level came back is one of its branches, or was pending before. -/
theorem mem_stacked_iff {segments : List String} {sprouts : List (Sprout κ)}
    {pending : List (κ × List String)} {p : κ × List String} :
    p ∈ stacked segments sprouts pending ↔
      (∃ name key, .branch name key ∈ sprouts ∧ p = (key, segments ++ [name])) ∨ p ∈ pending := by
  rw [stacked, List.mem_append, List.mem_reverse, List.mem_filterMap]
  refine or_congr_left ⟨?_, ?_⟩
  · rintro ⟨sprout, hmem, hpending⟩
    cases sprout with
    | leaf => cases hpending
    | branch name key => exact ⟨name, key, hmem, (Option.some.inj hpending).symm⟩
  · rintro ⟨name, key, hmem, rfl⟩
    exact ⟨_, hmem, rfl⟩

/-- In a stack of branches that are pending, one branch lies below all later ones. -/
theorem stacked_append_branch (segments : List String) (before later : List (Sprout κ))
    (name : String) (key : κ) (pending : List (κ × List String)) :
    stacked segments (before ++ .branch name key :: later) pending =
      stacked segments later [] ++
        (key, segments ++ [name]) :: stacked segments before pending := by
  simp [stacked, Sprout.pending?]

theorem stacked_append (segments : List String) (sprouts : List (Sprout κ))
    (first more : List (κ × List String)) :
    stacked segments sprouts (first ++ more) = stacked segments sprouts first ++ more := by
  rw [stacked, stacked, List.append_assoc]

/-- The loop that fills `tree` from the pending keys ends. It has then asked for the keys `asked` in
    this order, and it ends with a tree or at the first refusal. -/
inductive GrowsTo (ask : κ → Asking σ (List (Sprout κ))) :
    (pending : List (κ × List String)) → (tree : Dir) → σ → (asked : List κ) → Except Fault Dir →
      σ → Prop where
  | done {tree : Dir} {s : σ} : GrowsTo ask [] tree s [] (.ok tree) s
  | refused {key : κ} {segments : List String} {pending : List (κ × List String)} {tree : Dir}
      {s next : σ} {fault : Fault} (answer : ask key s = (.error fault, next)) :
      GrowsTo ask ((key, segments) :: pending) tree s [key] (.error fault) next
  /-- The level is planted at its place, and its branches are pending from then on. -/
  | planted {key : κ} {segments : List String} {pending : List (κ × List String)}
      {tree grown : Dir} {s next last : σ} {level : List (Sprout κ)} {asked : List κ}
      {result : Except Fault Dir} (answer : ask key s = (.ok level, next))
      (arrived : tree.update (Dir.plant level) segments = (grown, true))
      (rest : GrowsTo ask (stacked segments level pending) grown next asked result last) :
      GrowsTo ask ((key, segments) :: pending) tree s (key :: asked) result last
  /-- The place can no longer be come to, and the level is dropped. -/
  | dropped {key : κ} {segments : List String} {pending : List (κ × List String)}
      {tree grown : Dir} {s next last : σ} {level : List (Sprout κ)} {asked : List κ}
      {result : Except Fault Dir} (answer : ask key s = (.ok level, next))
      (stopped : tree.update (Dir.plant level) segments = (grown, false))
      (rest : GrowsTo ask pending grown next asked result last) :
      GrowsTo ask ((key, segments) :: pending) tree s (key :: asked) result last

variable {ask : κ → Asking σ (List (Sprout κ))} {pending : List (κ × List String)} {tree : Dir}
  {s last : σ} {asked : List κ} {result : Except Fault Dir}

/-- A request is for the first of the pending keys. -/
theorem GrowsTo.exists_pending {key : κ}
    (h : GrowsTo ask pending tree s (key :: asked) result last) :
    ∃ p later, pending = p :: later := by
  cases h <;> exact ⟨_, _, rfl⟩

/-- One step: the branches of a level that was planted are pending. -/
theorem grow_planted {key : κ} {level : List (Sprout κ)} {next : σ}
    (answer : ask key s = (.ok level, next)) {segments : List String} {grown : Dir}
    (arrived : tree.update (Dir.plant level) segments = (grown, true)) :
    grow ask ((key, segments) :: pending) tree s =
      grow ask (stacked segments level pending) grown next := by
  rw [grow, answer]
  dsimp only
  rw [arrived]
  rfl

/-- One step: a level that was dropped leaves the rest. -/
theorem grow_dropped {key : κ} {level : List (Sprout κ)} {next : σ}
    (answer : ask key s = (.ok level, next)) {segments : List String} {grown : Dir}
    (stopped : tree.update (Dir.plant level) segments = (grown, false)) :
    grow ask ((key, segments) :: pending) tree s = grow ask pending grown next := by
  rw [grow, answer]
  dsimp only
  rw [stopped]
  rfl

/-- One step: a refusal ends the loop. -/
theorem grow_refused {key : κ} {fault : Fault} {next : σ}
    (answer : ask key s = (.error fault, next)) (tree : Dir) (segments : List String)
    (pending : List (κ × List String)) :
    grow ask ((key, segments) :: pending) tree s = some (.error fault, next) := by
  rw [grow, answer]

/-- What a run ends with is what the loop comes to. -/
theorem GrowsTo.grow_eq (h : GrowsTo ask pending tree s asked result last) :
    grow ask pending tree s = some (result, last) := by
  induction h with
  | done => rw [grow]
  | refused answer => exact grow_refused answer _ _ _
  | planted answer arrived _ ih => exact (grow_planted answer arrived).trans ih
  | dropped answer stopped _ ih => exact (grow_dropped answer stopped).trans ih

/-- What the loop comes to is what a run ends with. -/
theorem exists_growsTo_of_grow (h : grow ask pending tree s = some (result, last)) :
    ∃ asked, GrowsTo ask pending tree s asked result last := by
  -- A result of the recursion is one of finitely many unfoldings, so each call has a shorter run.
  refine grow.partial_correctness ask
    (fun pending tree s end_ => ∃ asked, GrowsTo ask pending tree s asked end_.1 end_.2)
    (fun again ih pending tree s end_ hend => ?_) pending tree s (result, last) h
  cases pending with
  | nil =>
      cases hend
      exact ⟨[], .done⟩
  | cons first pending =>
      rcases first with ⟨key, segments⟩
      rcases hasked : ask key s with ⟨fault | level, next⟩
      · simp only [hasked, Option.some.injEq] at hend
        subst hend
        exact ⟨[key], .refused hasked⟩
      · rcases hupdate : tree.update (Dir.plant level) segments with ⟨grown, _ | _⟩
        all_goals
          simp only [hasked, hupdate] at hend
          rcases ih _ _ _ _ hend with ⟨asked, hrest⟩
        · exact ⟨key :: asked, .dropped hasked hupdate hrest⟩
        · exact ⟨key :: asked, .planted hasked hupdate hrest⟩

theorem grow_eq_some_iff :
    grow ask pending tree s = some (result, last) ↔
      ∃ asked, GrowsTo ask pending tree s asked result last :=
  ⟨exists_growsTo_of_grow, fun ⟨_, h⟩ => h.grow_eq⟩

/-- The loop never ends where it has no run. -/
theorem grow_eq_none_iff :
    grow ask pending tree s = none ↔
      ∀ asked result last, ¬ GrowsTo ask pending tree s asked result last := by
  constructor
  · intro hnone asked result last h
    cases hnone.symm.trans h.grow_eq
  · intro hall
    rw [Option.eq_none_iff_forall_not_mem]
    rintro ⟨result, last⟩ h
    rcases exists_growsTo_of_grow h with ⟨asked, hrun⟩
    exact hall asked result last hrun

/-- The run of the loop, if it has no more than so many requests. -/
def growFor (ask : κ → Asking σ (List (Sprout κ))) :
    Nat → List (κ × List String) → Dir → σ → Option (List κ × Except Fault Dir × σ)
  | _, [], tree, s => some ([], .ok tree, s)
  | 0, _ :: _, _, _ => none
  | n + 1, (key, segments) :: pending, tree, s =>
    match ask key s with
    | (.error fault, s) => some ([key], .error fault, s)
    | (.ok level, s) =>
      let (tree, arrived) := tree.update (Dir.plant level) segments
      let run := growFor ask n (if arrived then stacked segments level pending else pending) tree s
      run.map fun (asked, done) => (key :: asked, done)

/-- A short run can be found by going through it. -/
theorem growsTo_of_growFor {n : Nat}
    (h : growFor ask n pending tree s = some (asked, result, last)) :
    GrowsTo ask pending tree s asked result last := by
  induction n generalizing pending tree s asked with
  | zero =>
      cases pending with
      | nil =>
          cases h
          exact .done
      | cons => cases h
  | succ n ih =>
      cases pending with
      | nil =>
          cases h
          exact .done
      | cons first pending =>
          rcases first with ⟨key, segments⟩
          rcases hasked : ask key s with ⟨fault | level, next⟩
          · simp only [growFor, hasked, Option.some.injEq, Prod.mk.injEq] at h
            rcases h with ⟨rfl, rfl, rfl⟩
            exact .refused hasked
          · rcases hupdate : tree.update (Dir.plant level) segments with ⟨grown, _ | _⟩
            all_goals
              simp only [growFor, hasked, hupdate, Option.map_eq_some_iff] at h
              rcases h with ⟨⟨later, done⟩, hrest, heq⟩
              cases heq
            · exact .dropped hasked hupdate (ih hrest)
            · exact .planted hasked hupdate (ih hrest)

namespace GrowsTo

/-- The loop has at most one run. -/
theorem unique (h : GrowsTo ask pending tree s asked result last) {asked' : List κ}
    {result' : Except Fault Dir} {last' : σ}
    (h' : GrowsTo ask pending tree s asked' result' last') : asked = asked' := by
  induction h generalizing asked' with
  | done =>
      cases h'
      rfl
  | refused answer =>
      cases h' with
      | refused => rfl
      | planted answer' => cases answer.symm.trans answer'
      | dropped answer' => cases answer.symm.trans answer'
  | planted answer arrived _ ih =>
      cases h' with
      | refused answer' => cases answer.symm.trans answer'
      | planted answer' arrived' rest' =>
          cases answer.symm.trans answer'
          cases arrived.symm.trans arrived'
          exact congrArg _ (ih rest')
      | dropped answer' stopped' =>
          cases answer.symm.trans answer'
          cases arrived.symm.trans stopped'
  | dropped answer stopped _ ih =>
      cases h' with
      | refused answer' => cases answer.symm.trans answer'
      | planted answer' arrived' =>
          cases answer.symm.trans answer'
          cases stopped.symm.trans arrived'
      | dropped answer' stopped' rest' =>
          cases answer.symm.trans answer'
          cases stopped.symm.trans stopped'
          exact congrArg _ (ih rest')

/-- What planting a level keeps of the tree, wherever it is planted, the loop keeps. -/
theorem keeps_tree {P : Dir → Prop}
    (hplant : ∀ key s level, (ask key s).1 = .ok level → ∀ segments (tree : Dir), P tree →
      P (tree.update (Dir.plant level) segments).1)
    (h : GrowsTo ask pending tree s asked result last) (htree : P tree) {grown : Dir}
    (hok : result = .ok grown) : P grown := by
  induction h with
  | done =>
      cases hok
      exact htree
  | refused => cases hok
  | @planted key segments _ tree _ s _ _ level _ _ answer arrived _ ih =>
      have hkept := hplant key s level (congrArg Prod.fst answer) segments tree htree
      rw [arrived] at hkept
      exact ih hkept hok
  | @dropped key segments _ tree _ s _ _ level _ _ answer stopped _ ih =>
      have hkept := hplant key s level (congrArg Prod.fst answer) segments tree htree
      rw [stopped] at hkept
      exact ih hkept hok

/-- Where no answer depends on the state, the run from one state is a run from any other. -/
theorem exists_from (hask : ∀ key s s', (ask key s).1 = (ask key s').1)
    (h : GrowsTo ask pending tree s asked result last) (s' : σ) :
    ∃ last', GrowsTo ask pending tree s' asked result last' := by
  have hsame {key : κ} {answer : Except Fault (List (Sprout κ))} {s next : σ}
      (hasked : ask key s = (answer, next)) (s' : σ) : ask key s' = (answer, (ask key s').2) :=
    Prod.ext ((hask key s' s).trans (by rw [hasked])) rfl
  induction h generalizing s' with
  | done => exact ⟨s', .done⟩
  | refused answer => exact ⟨_, .refused (hsame answer s')⟩
  | planted answer arrived _ ih =>
      rcases ih _ with ⟨last', hrest⟩
      exact ⟨last', .planted (hsame answer s') arrived hrest⟩
  | dropped answer stopped _ ih =>
      rcases ih _ with ⟨last', hrest⟩
      exact ⟨last', .dropped (hsame answer s') stopped hrest⟩

end GrowsTo

/-- What a build comes to does not depend on the backend's state where no answer does. -/
theorem grow_answer (hask : ∀ key s s', (ask key s).1 = (ask key s').1) (s' : σ) :
    (grow ask pending tree s).map Prod.fst = (grow ask pending tree s').map Prod.fst := by
  have hsame {s s' : σ} {result : Except Fault Dir} {last : σ}
      (h : grow ask pending tree s = some (result, last)) :
      (grow ask pending tree s').map Prod.fst = some result := by
    rcases exists_growsTo_of_grow h with ⟨asked, hrun⟩
    rcases hrun.exists_from hask s' with ⟨last', hrun'⟩
    rw [hrun'.grow_eq, Option.map_some]
  cases h : grow ask pending tree s with
  | some done =>
      rcases done with ⟨result, last⟩
      exact (hsame h).symm
  | none =>
      cases h' : grow ask pending tree s' with
      | none => rfl
      | some done =>
          rcases done with ⟨result, last⟩
          have hback : (grow ask pending tree s).map Prod.fst = some result := hsame h'
          rw [h] at hback
          cases hback

end TreeShell
