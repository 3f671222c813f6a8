import TreeShell.Proofs.Tree.Loop
import TreeShell.Proofs.Tree.Replaced
import TreeShell.Proofs.Tree.Told

/-!
# The Stack Follows the Recursion

`grow` fills one shared tree from a stack of places. Each step plants one level into a directory
that an earlier step planted empty, so in between the tree has holes and the stack says where they
are. Here the loop is shown to do no more and no less than the recursion `UnfoldsBy`.

The statement that carries the induction speaks of one level in the middle of a run. The tree around
it and what else is pending do not matter, so they are quantified over. Before, all branches of the
level are on the stack and empty in the tree. Afterwards the stack is back to what was pending, and
the directory of the level has become what the recursion makes of it. The entries in front of the
level are those which the induction has yet to come to: the last branch is on top of the stack, so
the entries are done from the last to the first.

A backend answers with its own state, and what it answers may depend on it. The recursion says what
was asked and what was answered, and all that is required of the backend is that along the run it
gives these answers.

## Main definitions

* `goOn`: What the loop makes of a directory that is done.
* `levelOf`: The levels that a backend's listings give.

## Theorems

* `grow_unfolds`: From a level to the same level done.
* `grow_unfoldsFrom`: The loop from the root is the recursion from the root's key.
* `exists_unfoldsFrom_levelOf`: What is known of a build from listings that stay the same.
-/

namespace TreeShell

variable {κ σ : Type}

/-- The entry that a sprout is planted as. -/
def Sprout.entry (sprout : Sprout κ) : String × Node := (sprout.name, sprout.node)

/-- Planted into an empty directory, a level with distinct names is a directory. -/
theorem Dir.plant_empty {sprouts : List (Sprout κ)} (h : (sprouts.map Sprout.name).Nodup) :
    Dir.empty.plant sprouts = Dir.empty.prepend (sprouts.map Sprout.entry) := by
  have hplant : Dir.empty.plant sprouts = Dir.empty.insertAll (sprouts.map Sprout.entry) := by
    rw [plant, insertAll, List.foldl_map]
    rfl
  have hnames : (sprouts.map Sprout.entry).map Prod.fst = sprouts.map Sprout.name := by
    rw [List.map_map]
    rfl
  apply Dir.toList_injective
  rw [hplant, toList_prepend, toList_insertAll _ _ (by rw [hnames]; exact h), toList_empty,
    List.nil_append, List.append_nil]

/-- What the loop makes of a directory that is done: it goes on with what is pending, in the tree
    that has the directory in its place. -/
def goOn (ask : κ → Asking σ (List (Sprout κ))) (pending : List (κ × List String))
    (place : Dir → Dir) (s : σ) : Except Fault Dir → Option (Except Fault Dir × σ)
  | .ok entries => grow ask pending (place entries) s
  | .error fault => some (.error fault, s)

variable {ask : κ → Asking σ (List (Sprout κ))}

/-- One step: the level of an empty directory is planted there. -/
theorem update_listed {below : List (Sprout κ)} (hdistinct : (below.map Sprout.name).Nodup)
    {tree : Dir} {segments : List String} (hplace : tree.dirAt? segments = some .empty) :
    tree.update (Dir.plant below) segments =
      (tree.replaceAt segments (Dir.empty.prepend (below.map Sprout.entry)), true) := by
  rw [Dir.update_eq_replaceAt hplace, Dir.plant_empty hdistinct]

section Hole

variable {tree here : Dir} {segments : List String} (hplace : tree.dirAt? segments = some here)
  {before : List (String × Node)} {name : String} (hname : name ∉ before.map Prod.fst) (rest : Dir)

include hplace hname

/-- The hole that a branch leaves in its level is where the stack says. -/
theorem dirAt?_hole :
    (tree.replaceAt segments ((Dir.entry name (.dir .empty) rest).prepend before)).dirAt?
      (segments ++ [name]) = some .empty := by
  rw [Dir.dirAt?_append, Dir.dirAt?_replaceAt hplace, Option.bind_some,
    Dir.dirAt?_cons_eq_some_iff]
  exact ⟨.empty, Dir.find?_prepend_entry hname _ rest, Dir.dirAt?_nil _⟩

/-- Filling the hole completes the entry. -/
theorem replaceAt_hole (entries : Dir) :
    (tree.replaceAt segments ((Dir.entry name (.dir .empty) rest).prepend before)).replaceAt
        (segments ++ [name]) entries =
      tree.replaceAt segments ((Dir.entry name (.dir entries) rest).prepend before) := by
  rw [Dir.replaceAt_append (Dir.dirAt?_replaceAt hplace _), Dir.replaceAt_prepend_entry hname,
    Dir.replaceAt_replaceAt hplace]

end Hole

/-- The loop with all branches of a level pending does what the recursion over the level says, and
    goes on with what was pending before. -/
theorem grow_unfolds {sprouts : List (Sprout κ)} {said : List (Exchange κ)}
    {result : Except Fault Dir} (h : UnfoldsBy sprouts said result)
    (hdistinct : ∀ key below, (key, .ok below) ∈ said → (below.map Sprout.name).Nodup)
    {s last : σ} (hanswers : Answers ask s said last) {tree here : Dir} {segments : List String}
    (hplace : tree.dirAt? segments = some here) (before : List (String × Node))
    (hnew : (before.map Prod.fst ++ sprouts.map Sprout.name).Nodup)
    (pending : List (κ × List String)) :
    grow ask (stacked segments sprouts pending)
        (tree.replaceAt segments (Dir.empty.prepend (before ++ sprouts.map Sprout.entry))) s =
      goOn ask pending (fun entries => tree.replaceAt segments (entries.prepend before)) last
        result := by
  -- An entry that is done stands in front of the later ones.
  have hpush (before : List (String × Node)) (sprout : Sprout κ) (later : List (Sprout κ)) :
      (before ++ [sprout.entry]).map Prod.fst ++ later.map Sprout.name =
        before.map Prod.fst ++ (sprout :: later).map Sprout.name := by
    simp [Sprout.entry]
  induction h generalizing s last tree here segments before pending with
  | nil =>
      cases hanswers
      simp [goOn, stacked]
  | @leaf name node later said rest after ih =>
      have hrest := ih hdistinct hanswers hplace _ (by rw [hpush]; exact hnew) pending
      rw [List.append_assoc] at hrest
      rw [stacked_cons]
      refine hrest.trans ?_
      rw [goOn, goOn, Dir.prepend_append]
      rfl
  | @branch name key later below said inner rest result after inside ihafter ihinside =>
      rcases hanswers.of_append_cons with ⟨_, _, hlater, hasked, hinner⟩
      have hbelow : (below.map Sprout.name).Nodup :=
        hdistinct key below (List.mem_append_right _ List.mem_cons_self)
      have hname : name ∉ before.map Prod.fst := fun hm =>
        (List.nodup_append.1 hnew).2.2 name hm name List.mem_cons_self rfl
      -- First the later entries, with this branch pending below them.
      have hrest := ihafter (fun k sprouts hm => hdistinct k sprouts (List.mem_append_left _ hm))
        hlater hplace _ (by rw [hpush]; exact hnew) ((key, segments ++ [name]) :: pending)
      rw [List.append_assoc] at hrest
      rw [stacked_cons]
      refine hrest.trans ?_
      rw [goOn, Dir.prepend_append]
      -- Then its own level goes into the hole, and the recursion fills that.
      have hhole := dirAt?_hole hplace hname rest
      have hinside := ihinside (fun k sprouts hm => hdistinct k sprouts
        (List.mem_append_right _ (List.mem_cons_of_mem _ hm))) hinner hhole [] hbelow pending
      refine (grow_planted hasked (update_listed hbelow hhole)).trans (hinside.trans ?_)
      cases result with
      | error => rfl
      | ok entries =>
          exact congrArg (fun tree => grow ask pending tree last)
            (replaceAt_hole hplace hname rest entries)
  | @refused name key later said rest fault after ih =>
      rcases hanswers.of_append_cons with ⟨_, _, hlater, hasked, hnone⟩
      cases hnone
      have hrest := ih (fun k sprouts hm => hdistinct k sprouts (List.mem_append_left _ hm))
        hlater hplace _ (by rw [hpush]; exact hnew) ((key, segments ++ [name]) :: pending)
      rw [List.append_assoc] at hrest
      rw [stacked_cons]
      exact hrest.trans (grow_refused hasked _ _ _)
  | @broken sprout later said fault after ih =>
      have hrest := ih hdistinct hanswers hplace _ (by rw [hpush]; exact hnew)
        ((sprout.pending? segments).toList ++ pending)
      rw [List.append_assoc] at hrest
      rw [stacked_cons]
      exact hrest

/-- The loop from the root does what the recursion from the root's key says. -/
theorem grow_unfoldsFrom {key : κ} {said : List (Exchange κ)} {result : Except Fault Dir}
    (h : UnfoldsFromBy key said result)
    (hdistinct : ∀ k below, (k, .ok below) ∈ said → (below.map Sprout.name).Nodup)
    {s last : σ} (hanswers : Answers ask s said last) :
    grow ask [(key, [])] .empty s = some (result, last) := by
  cases h with
  | refused =>
      rcases hanswers with _ | ⟨hasked, hnone⟩
      cases hnone
      exact grow_refused hasked _ _ _
  | @listed below inner _ inside =>
      rcases hanswers with _ | ⟨hasked, hinner⟩
      have hbelow : (below.map Sprout.name).Nodup := hdistinct key below List.mem_cons_self
      have hroot := Dir.dirAt?_nil .empty
      refine (grow_planted hasked (update_listed hbelow hroot)).trans ?_
      refine (grow_unfolds inside (fun k sprouts hm => hdistinct k sprouts
        (List.mem_cons_of_mem _ hm)) hinner hroot [] hbelow []).trans ?_
      cases result with
      | error => rfl
      | ok entries => exact grow.eq_1 ask _ last

section Listed

variable {ε : Type}

/-- The levels that a backend's listings give, entry by entry. -/
def levelOf (list : κ → Except Fault (List ε)) (sprout : κ → ε → Sprout κ) (key : κ) :
    Except Fault (List (Sprout κ)) :=
  (list key).map (List.map (sprout key))

variable {list : κ → Except Fault (List ε)} {sprout : κ → ε → Sprout κ}

/-- The entries of a listing are complete where none is planted as a directory with what it holds. -/
theorem Sprout.closed_map {sprout : ε → Sprout κ}
    (h : ∀ e name entries, sprout e ≠ .leaf name (.dir entries)) (entries : List ε) :
    Sprout.Closed (entries.map sprout) := by
  intro name child hmem
  rcases List.mem_map.1 hmem with ⟨e, _, he⟩
  exact h e name child he

theorem levelOf_eq_ok_iff {key : κ} {sprouts : List (Sprout κ)} :
    levelOf list sprout key = .ok sprouts ↔
      ∃ entries, list key = .ok entries ∧ sprouts = entries.map (sprout key) := by
  unfold levelOf
  cases list key with
  | error => simp [Except.map]
  | ok entries => simp [Except.map, eq_comm]

theorem levelOf_isOk_iff {key : κ} :
    (∃ sprouts, levelOf list sprout key = .ok sprouts) ↔ ∃ entries, list key = .ok entries := by
  unfold levelOf
  cases list key <;> simp [Except.map]

/-- What is known of a build from listings, once no chain of keys goes on for ever: the recursion has
    a result, and it fails only where a key that can be reached is refused. If in addition the names
    in each listing asked for are distinct, it covers its result or ends with the first refusal, and
    the loop comes to the same. -/
theorem exists_unfoldsFrom_levelOf
    (hclosed : ∀ key e name entries, sprout key e ≠ .leaf name (.dir entries)) {key : κ}
    (hfinite : Acc (fun k above => Child (levelOf list sprout) above k) key) :
    ∃ asked result, UnfoldsFrom (levelOf list sprout) key asked result ∧
      ((∃ root, result = .ok root) ↔ ∀ segments k, Leads (levelOf list sprout) key segments k →
        ∃ entries, list k = .ok entries) ∧
      ((∀ k ∈ asked, ∀ entries, list k = .ok entries →
          (entries.map fun e => (sprout k e).name).Nodup) →
        (∀ root, result = .ok root → Covers (levelOf list sprout) key asked root) ∧
        (∀ fault, result = .error fault → RefusedLast (levelOf list sprout) asked fault) ∧
        ∀ {σ : Type} (ask : κ → Asking σ (List (Sprout κ))) (s last : σ),
          Answers ask s (told (levelOf list sprout) asked) last →
          grow ask [(key, [])] .empty s = some (result, last)) := by
  obtain ⟨asked, result, h⟩ := UnfoldsFrom.exists_of_acc hfinite
  refine ⟨asked, result, h, ?_, fun hnames => ?_⟩
  · simp only [h.isOk_iff, levelOf_isOk_iff]
  · have hdistinct : ∀ k ∈ asked, ∀ sprouts, levelOf list sprout k = .ok sprouts →
        (sprouts.map Sprout.name).Nodup := by
      intro k hk sprouts hsprouts
      rcases levelOf_eq_ok_iff.1 hsprouts with ⟨entries, hentries, rfl⟩
      rw [List.map_map]
      exact hnames k hk entries hentries
    have hlevels : ∀ k sprouts, levelOf list sprout k = .ok sprouts → Sprout.Closed sprouts := by
      intro k sprouts hsprouts
      rcases levelOf_eq_ok_iff.1 hsprouts with ⟨entries, _, rfl⟩
      exact Sprout.closed_map (hclosed k) entries
    exact ⟨fun root hok => h.covers hok hlevels hdistinct, fun fault => UnfoldsFromBy.refusedLast h,
      fun ask s last hanswers => grow_unfoldsFrom h
        (fun k below hm => hdistinct k (mem_told.1 hm).1 below (gives_of_told hm)) hanswers⟩

end Listed

end TreeShell
