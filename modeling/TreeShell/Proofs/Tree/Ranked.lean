import TreeShell.Proofs.Tree.Grown

/-!
# Loops That End

A loop ends if below none of its pending keys a chain of keys goes on for ever, and it matters
neither what the names are nor in which order the keys come. Whatever is pending below a key, the
loop gets through with the key and all that is found below it, and then has the rest before it.

That says nothing of the number of requests, and the size of the stack is no measure of what is left
to do. What is, is how far down there is anything to find below each pending key. If the keys in a
level always have a lower rank than the key of the level, a key of rank `r` stands for no more than
`effort width r` requests, the one for itself included, since a level has at most `width` keys. A
step gives up the share of the key that it asks for, and takes on at most as many shares of the next
lower rank as there are keys in the level. That is one request less.

If a key is in its own level, there is no such rank, and the loop may go on for ever.

## Main definitions

* `Ends`: The loop ends, whatever it has come to.
* `effort`: How many requests a key of a rank stands for at most.
* `effortLeft`: How many requests the pending keys stand for.

## Theorems

* `Ends.cons_of_acc`: The loop gets through with a key below which every chain ends.
* `effortLeft_stacked_lt`: The request for a level leaves less to do.
* `exists_growsTo`: The loop ends if ranks go down, and after how many requests at most.
* `grow_endless`: It never ends where a key is all that there is in its own level.
-/

namespace TreeShell

variable {κ σ : Type} {ask : κ → Asking σ (List (Sprout κ))}

/-- With these keys pending the loop ends, from any tree and any state. -/
def Ends (ask : κ → Asking σ (List (Sprout κ))) (pending : List (κ × List String)) : Prop :=
  ∀ tree s, ∃ asked result last, GrowsTo ask pending tree s asked result last

theorem Ends.nil : Ends ask [] := fun tree s => ⟨[], .ok tree, s, .done⟩

/-- The loop gets through with a key below which every chain of keys ends. -/
theorem Ends.cons_of_acc {gives : κ → List (Sprout κ) → Prop}
    (hgives : ∀ key s below, (ask key s).1 = .ok below → gives key below) {key : κ}
    (h : Acc (fun key above => ChildBy gives above key) key) (segments : List String)
    {pending : List (κ × List String)} (hpending : Ends ask pending) :
    Ends ask ((key, segments) :: pending) := by
  induction h generalizing segments pending with
  | intro key _ ih =>
      -- It gets through with any keys that are found in the level of this one.
      have hfound (found : List (κ × List String))
          (hchild : ∀ p ∈ found, ChildBy gives key p.1) : Ends ask (found ++ pending) := by
        induction found with
        | nil => exact hpending
        | cons p found ihfound =>
            rw [List.forall_mem_cons] at hchild
            exact ih p.1 hchild.1 p.2 (ihfound hchild.2)
      intro tree s
      rcases hasked : ask key s with ⟨fault | level, next⟩
      · exact ⟨_, _, _, .refused hasked⟩
      · rcases hupdate : tree.update (Dir.plant level) segments with ⟨grown, _ | _⟩
        · rcases hpending grown next with ⟨asked, result, last, hrest⟩
          exact ⟨_, _, _, .dropped hasked hupdate hrest⟩
        · have hchild : ∀ p ∈ stacked segments level [], ChildBy gives key p.1 := by
            intro p hp
            rcases mem_stacked_iff.1 hp with ⟨name, child, hmem, rfl⟩ | hnil
            · exact ⟨level, hgives key s level (congrArg Prod.fst hasked), name, hmem⟩
            · cases hnil
          have hends := hfound _ hchild
          rw [← stacked_append, List.nil_append] at hends
          rcases hends grown next with ⟨asked, result, last, hrest⟩
          exact ⟨_, _, _, .planted hasked hupdate hrest⟩

/-- How many levels there are to ask for where each has at most `width` branches and none is more
    than `depth` steps away from the first. -/
def effort (width : Nat) : Nat → Nat
  | 0 => 1
  | depth + 1 => 1 + width * effort width depth

/-- A longer way down takes no less. -/
theorem effort_le_effort (width : Nat) {depth deeper : Nat} (h : depth ≤ deeper) :
    effort width depth ≤ effort width deeper := by
  induction depth generalizing deeper with
  | zero =>
      cases deeper with
      | zero => exact Nat.le_refl _
      | succ deeper => exact Nat.le_add_right 1 _
  | succ depth ih =>
      cases deeper with
      | zero => exact absurd h (Nat.not_succ_le_zero depth)
      | succ deeper =>
          exact Nat.add_le_add_left (Nat.mul_le_mul_left width (ih (Nat.le_of_succ_le_succ h))) 1

/-- How many requests the pending keys stand for, if no level has more than `width` branches and
    the way down from a key is no longer than its rank. -/
def effortLeft (width : Nat) (rank : κ → Nat) : List (κ × List String) → Nat
  | [] => 0
  | p :: pending => effort width (rank p.1) + effortLeft width rank pending

section Ranked

variable {width : Nat} {rank : κ → Nat}

/-- Keys of a rank or of lower ones stand for their number of shares. -/
theorem effortLeft_append_le (width : Nat) {found : List (κ × List String)} {depth : Nat}
    (h : ∀ p ∈ found, rank p.1 ≤ depth) (pending : List (κ × List String)) :
    effortLeft width rank (found ++ pending) ≤
      found.length * effort width depth + effortLeft width rank pending := by
  induction found with
  | nil => exact Nat.le_add_left _ _
  | cons p found ih =>
      have hhead : effort width (rank p.1) ≤ effort width depth :=
        effort_le_effort width (h p List.mem_cons_self)
      have htail := ih fun q hq => h q (List.mem_cons_of_mem p hq)
      rw [List.cons_append, effortLeft, List.length_cons, Nat.succ_mul]
      omega

/-- A share pays for one request and for all keys of lower ranks that can be found with it. -/
theorem effortLeft_append_lt {found : List (κ × List String)} {height : Nat}
    (hfew : found.length ≤ width) (hlower : ∀ p ∈ found, rank p.1 < height)
    (pending : List (κ × List String)) :
    effortLeft width rank (found ++ pending) <
      effort width height + effortLeft width rank pending := by
  cases height with
  | zero =>
      -- There is nothing below the lowest rank.
      have hnone : found = [] :=
        List.eq_nil_iff_forall_not_mem.2 fun p hp => Nat.not_lt_zero _ (hlower p hp)
      rw [hnone, List.nil_append, effort]
      omega
  | succ depth =>
      have hshares := effortLeft_append_le width
        (fun p hp => Nat.le_of_lt_succ (hlower p hp)) pending
      have hwidth := Nat.mul_le_mul_right (effort width depth) hfew
      rw [effort]
      omega

/-- With a level that came back there is less to do than before it was asked for. -/
theorem effortLeft_stacked_lt {key : κ} {level : List (Sprout κ)} (hwidth : level.length ≤ width)
    (hrank : ∀ name child, .branch name child ∈ level → rank child < rank key)
    (segments : List String) (pending : List (κ × List String)) :
    effortLeft width rank (stacked segments level pending) <
      effortLeft width rank ((key, segments) :: pending) := by
  refine effortLeft_append_lt ?_ (fun p hp => ?_) pending
  · rw [List.length_reverse]
    exact (List.length_filterMap_le _ _).trans hwidth
  · have hstacked : p ∈ stacked segments level [] := List.mem_append_left [] hp
    rcases mem_stacked_iff.1 hstacked with ⟨name, child, hmem, rfl⟩ | hnil
    · exact hrank name child hmem
    · cases hnil

/-- If the keys in a level always have a lower rank than its own, the loop ends, and the pending
    keys stand for all of its requests. By induction on what is left to do. -/
theorem exists_growsTo (hlevel : ∀ key s level next, ask key s = (.ok level, next) →
      level.length ≤ width ∧ ∀ name child, .branch name child ∈ level → rank child < rank key)
    (pending : List (κ × List String)) (tree : Dir) (s : σ) :
    ∃ asked result last, GrowsTo ask pending tree s asked result last ∧
      asked.length ≤ effortLeft width rank pending := by
  induction hleft : effortLeft width rank pending using Nat.strongRecOn
    generalizing pending tree s with
  | ind left ih =>
  cases pending with
  | nil => exact ⟨[], .ok tree, s, .done, Nat.zero_le _⟩
  | cons p pending =>
      rcases p with ⟨key, segments⟩
      rcases hasked : ask key s with ⟨fault | level, next⟩
      · have hone : 1 ≤ effort width (rank key) := effort_le_effort width (Nat.zero_le _)
        refine ⟨[key], .error fault, next, .refused hasked, ?_⟩
        rw [← hleft, effortLeft]
        exact hone.trans (Nat.le_add_right _ _)
      · rcases hlevel key s level next hasked with ⟨hwidth, hrank⟩
        have hstacked := effortLeft_stacked_lt hwidth hrank segments pending
        have hpending : effortLeft width rank pending <
            effortLeft width rank ((key, segments) :: pending) :=
          Nat.lt_add_of_pos_left (effort_le_effort width (Nat.zero_le (rank key)))
        rcases hupdate : tree.update (Dir.plant level) segments with ⟨grown, _ | _⟩
        · rcases ih _ (hleft ▸ hpending) pending grown next rfl with
            ⟨asked, result, last, hgrows, hless⟩
          refine ⟨key :: asked, result, last, .dropped hasked hupdate hgrows, ?_⟩
          rw [List.length_cons, ← hleft]
          exact Nat.lt_of_le_of_lt hless hpending
        · rcases ih _ (hleft ▸ hstacked) (stacked segments level pending) grown next rfl with
            ⟨asked, result, last, hgrows, hless⟩
          refine ⟨key :: asked, result, last, .planted hasked hupdate hgrows, ?_⟩
          rw [List.length_cons, ← hleft]
          exact Nat.lt_of_le_of_lt hless hstacked

end Ranked

/-- Where a key is all that there is in its own level, the loop goes down for ever, one directory
    inside the other. -/
theorem grow_endless {key : κ} {name : String}
    (hself : ∀ s, (ask key s).1 = .ok [.branch name key]) {tree : Dir} {segments : List String}
    (hplace : tree.dirAt? segments = some .empty) (s : σ) :
    grow ask [(key, segments)] tree s = none := by
  refine grow_eq_none_iff.2 fun asked result last h => ?_
  -- A run from here would go on with a shorter run from one directory further down.
  induction asked generalizing tree segments s with
  | nil => cases h
  | cons first asked ih =>
      have hdistinct : ([(.branch name key : Sprout κ)].map Sprout.name).Nodup :=
        List.nodup_singleton name
      have hgrown := update_listed hdistinct hplace
      -- The directory that is planted is empty, as the one was into which it is planted.
      have hbelow : (tree.replaceAt segments
          ((Dir.entry name (.dir .empty) .empty).prepend [])).dirAt? (segments ++ [name]) =
            some .empty :=
        dirAt?_hole hplace List.not_mem_nil .empty
      have hanswer := hself s
      cases h with
      | refused answer =>
          rw [answer] at hanswer
          cases hanswer
      | planted answer arrived rest =>
          rw [answer] at hanswer
          cases hanswer
          cases hgrown.symm.trans arrived
          exact ih hbelow _ rest
      | dropped answer stopped =>
          rw [answer] at hanswer
          cases hanswer
          cases hgrown.symm.trans stopped

end TreeShell
