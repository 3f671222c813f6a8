import TreeShell.Proofs.Service.Gallery

/-!
# What Calls on a Gallery Come To

Images are registered and released in any order, and a name may be released that was never given
out, or that was released before. What this comes to depends on the calls alone, and not on how a
gallery keeps its images: there is one image for every registration that was not followed by a
release of its name. `standing` reads them off the calls. It goes through the calls from the front
and looks ahead at each registration, while the gallery only knows what is behind it. The two meet
in a run from any gallery, not only from a new one (`images_after`): the images that were there are
kept unless the calls release their names, and behind them come the standing registrations.

That a name stands for one image only is a matter of numbers. The names that a run gives out are
those of the numbers from the next one on (`map_uri_issued`), whatever is released in between. The
next number itself is what 64 bits can hold as long as fewer registrations are made than there are
such numbers, and so a counter of that width never begins again.

## Main definitions

* `Gallery.Call`, `Gallery.after`: A call, and a gallery after some of them.
* `Gallery.issued`: The handles that a run hands back.
* `Gallery.standing`: The registrations of a run that are not released further on.

## Theorems

* `Gallery.release_fst`, `Gallery.release_release`: When there is something to release.
* `Gallery.map_uri_issued`, `Gallery.next_after`: Registrations are numbered one by one.
* `Gallery.images_after`: What a gallery holds after a run.
* `Gallery.mem_standing_iff`: A standing registration, said of the place where it is made.
* `Gallery.Sound.after`: A run leaves the names distinct.
* `Gallery.handles_of_calls`: What a new gallery gives out, finds, releases and counts.
-/

namespace TreeShell.Gallery

/-- A call that changes a gallery. -/
inductive Call where
  | register (image : Image)
  | release (name : String)
  deriving DecidableEq

/-- Whether a call registers an image. -/
def Call.registers : Call → Bool
  | .register _ => true
  | .release _ => false

/-- The gallery after one call. -/
def call (g : Gallery) : Call → Gallery
  | .register image => (g.register image).2
  | .release name => (g.release name).2

/-- The gallery after some calls. -/
def after (g : Gallery) (calls : List Call) : Gallery := calls.foldl call g

/-- The handles that the registrations among some calls hand back, in their order. -/
def issued (g : Gallery) : List Call → List ImageHandle
  | [] => []
  | .register image :: calls => (g.register image).1 :: (g.register image).2.issued calls
  | .release name :: calls => (g.release name).2.issued calls

/-- The images that some calls register under names that no later one among them releases. -/
def standing (g : Gallery) : List Call → List (String × Image)
  | [] => []
  | .register image :: calls =>
    let (handle, g) := g.register image
    if .release handle.uri ∈ calls then g.standing calls
    else (handle.uri, image) :: g.standing calls
  | .release name :: calls => (g.release name).2.standing calls

/-- A name is released if there is an image under it. -/
theorem release_fst (g : Gallery) (name : String) :
    (g.release name).1 = (g.find? name).isSome := by
  rw [release, find?, Bool.eq_iff_iff, List.any_eq_true, List.lookup_isSome_iff]
  refine exists_congr fun e => and_congr_right fun _ => ?_
  rw [decide_eq_true_eq, beq_iff_eq]
  exact eq_comm

/-- What was released is not found. -/
theorem find?_release_self (g : Gallery) (name : String) :
    (g.release name).2.find? name = none := by
  rw [find?, List.lookup_eq_none_iff]
  intro e he
  have hne : e.1 ≠ name := of_decide_eq_true (List.mem_filter.1 he).2
  exact bne_iff_ne.2 hne.symm

/-- So a second release finds nothing, and changes nothing. -/
theorem release_release (g : Gallery) (name : String) :
    (g.release name).2.release name = (false, (g.release name).2) := by
  apply Prod.ext
  · rw [release_fst, find?_release_self]
    rfl
  · simp only [release, revoke, List.filter_filter, Bool.and_self]

theorem after_cons (g : Gallery) (c : Call) (calls : List Call) :
    g.after (c :: calls) = (g.call c).after calls := rfl

/-- The names of a run are those of the numbers from the next one on. -/
theorem map_uri_issued (g : Gallery) (calls : List Call) :
    (g.issued calls).map ImageHandle.uri =
      (List.range' g.next (calls.countP Call.registers)).map uri := by
  induction calls generalizing g with
  | nil => rfl
  | cons c calls ih =>
      cases c with
      | register image =>
          rw [issued, List.map_cons, ih, List.countP_cons_of_pos rfl, List.range'_succ,
            List.map_cons]
          rfl
      | release name =>
          rw [issued, ih, List.countP_cons_of_neg Bool.false_ne_true]
          rfl

/-- Each registration takes one number, and nothing gives one back. -/
theorem next_after (g : Gallery) (calls : List Call) :
    (g.after calls).next = g.next + calls.countP Call.registers := by
  induction calls generalizing g with
  | nil => rfl
  | cons c calls ih =>
      rw [after_cons, ih]
      cases c with
      | register image =>
          rw [List.countP_cons_of_pos rfl, Nat.add_comm _ 1, ← Nat.add_assoc]
          rfl
      | release name =>
          rw [List.countP_cons_of_neg Bool.false_ne_true]
          rfl

/-- What a gallery holds after a run: what it held under names that are not released, and behind it
    the standing registrations. -/
theorem images_after (g : Gallery) (calls : List Call) :
    (g.after calls).images =
      (g.images.filter fun e => .release e.1 ∉ calls) ++ g.standing calls := by
  induction calls generalizing g with
  | nil => simp [after, standing]
  | cons c calls ih =>
      rw [after_cons, ih]
      cases c with
      | register image =>
          have hold : (g.images.filter fun e => .release e.1 ∉ .register image :: calls) =
              g.images.filter fun e => .release e.1 ∉ calls :=
            List.filter_congr fun e _ => by simp
          rw [hold, call, standing, register, List.filter_append, List.append_assoc]
          dsimp only
          split
          · rename_i hreleased
            rw [List.filter_cons_of_neg (by simpa using hreleased)]
            rfl
          · rename_i hkept
            rw [List.filter_cons_of_pos (by simpa using hkept)]
            rfl
      | release name =>
          have hleft : ((g.release name).2.images.filter fun e => .release e.1 ∉ calls) =
              g.images.filter fun e => .release e.1 ∉ .release name :: calls := by
            rw [release, revoke, List.filter_filter]
            refine List.filter_congr fun e _ => ?_
            simp [Bool.and_comm]
          rw [call, standing, hleft]

/-- A registration stands if it is the first call and its name is not released further on, or if it
    stands after the first call. -/
theorem mem_standing_cons_iff {g : Gallery} {c : Call} {calls : List Call} {name : String}
    {image : Image} :
    (name, image) ∈ g.standing (c :: calls) ↔
      (c = .register image ∧ (g.register image).1.uri = name ∧ .release name ∉ calls) ∨
        (name, image) ∈ (g.call c).standing calls := by
  cases c with
  | release other =>
      refine ⟨.inr, fun h => h.resolve_left ?_⟩
      rintro ⟨hother, _⟩
      cases hother
  | register new =>
      rw [standing, Call.register.injEq]
      dsimp only
      split
      · rename_i hreleased
        refine ⟨.inr, fun h => h.resolve_left ?_⟩
        rintro ⟨rfl, rfl, hkept⟩
        exact hkept hreleased
      · rename_i hkept
        rw [List.mem_cons, Prod.mk.injEq]
        refine or_congr_left ⟨?_, ?_⟩
        · rintro ⟨rfl, rfl⟩
          exact ⟨rfl, rfl, hkept⟩
        · rintro ⟨rfl, rfl, _⟩
          exact ⟨rfl, rfl⟩

/-- A registration stands if its name is not released after the place where it is made. -/
theorem mem_standing_iff {g : Gallery} {calls : List Call} {name : String} {image : Image} :
    (name, image) ∈ g.standing calls ↔ ∃ before later,
      calls = before ++ .register image :: later ∧
        ((g.after before).register image).1.uri = name ∧ .release name ∉ later := by
  induction calls generalizing g with
  | nil =>
      refine ⟨fun h => absurd h List.not_mem_nil, ?_⟩
      rintro ⟨before, later, hcalls, _⟩
      exact absurd hcalls.symm (List.append_ne_nil_of_right_ne_nil _ (List.cons_ne_nil _ _))
  | cons c calls ih =>
      rw [mem_standing_cons_iff, ih]
      constructor
      · rintro (⟨rfl, hname, hkept⟩ | ⟨before, later, rfl, hname, hkept⟩)
        · exact ⟨[], calls, rfl, hname, hkept⟩
        · exact ⟨c :: before, later, rfl, hname, hkept⟩
      · rintro ⟨before, later, hcalls, hname, hkept⟩
        rcases List.cons_eq_append_iff.1 hcalls with ⟨rfl, hhere⟩ | ⟨before, rfl, hthere⟩
        · rw [List.cons.injEq] at hhere
          exact .inl ⟨hhere.1.symm, hname, hhere.2 ▸ hkept⟩
        · exact .inr ⟨before, later, hthere, hname, hkept⟩

namespace Sound

variable {g : Gallery} (h : g.Sound)

include h

theorem release (name : String) : (g.release name).2.Sound := by
  have hsub : (g.release name).2.names.Sublist g.names := List.filter_sublist.map Prod.fst
  exact ⟨h.distinct.sublist hsub, fun other hother => h.issued other (hsub.subset hother)⟩

/-- A release leaves what is found under any other name. -/
theorem find?_release_of_ne {name other : String} (hne : other ≠ name) :
    (g.release name).2.find? other = g.find? other := by
  apply Option.ext
  intro image
  rw [(h.release name).find?_eq_some_iff, h.find?_eq_some_iff, Gallery.release, revoke,
    List.mem_filter]
  exact and_iff_left (decide_eq_true hne)

/-- A run leaves the names distinct. -/
theorem after (calls : List Call) : (g.after calls).Sound := by
  induction calls generalizing g with
  | nil => exact h
  | cons c calls ih =>
      rw [after_cons]
      cases c with
      | register image => exact ih (h.register image)
      | release name => exact ih (h.release name)

end Sound

/-- What a new gallery comes to by fewer registrations than there are 64-bit numbers and any number
    of releases, of any names. The next number is a 64-bit number, and no name is given out twice.
    The image found under a name is the one registered under it, unless the name was released since.
    A release says whether there was an image, takes it away, and leaves what is found under any
    other name. The images are counted by the registrations that still stand. -/
theorem handles_of_calls (calls : List Call)
    (hfew : calls.countP Call.registers < UInt64.size) :
    let g := after {} calls
    g.next < UInt64.size ∧ ((issued {} calls).map ImageHandle.uri).Nodup ∧
      (∀ name image, g.find? name = some image ↔ ∃ before later,
        calls = before ++ .register image :: later ∧
          ((after {} before).register image).1.uri = name ∧ .release name ∉ later) ∧
      (∀ name, ((g.release name).1 = true ↔ ∃ image, g.find? name = some image) ∧
        (g.release name).2.find? name = none ∧
        ∀ other, other ≠ name → (g.release name).2.find? other = g.find? other) ∧
      g.size = (standing {} calls).length := by
  intro g
  have hsound : g.Sound := (sound_of_images rfl).after calls
  have himages : g.images = standing {} calls := images_after {} calls
  refine ⟨?_, ?_, fun name image => ?_, fun name => ⟨?_, g.find?_release_self name, ?_⟩, ?_⟩
  · rw [next_after]
    exact (Nat.zero_add _).trans_lt hfew
  · rw [map_uri_issued]
    exact (List.nodup_range' 1).map uri_injective
  · rw [hsound.find?_eq_some_iff, himages, mem_standing_iff]
  · rw [release_fst, Option.isSome_iff_exists]
  · exact fun other hne => hsound.find?_release_of_ne hne
  · rw [size, himages]

/-- A name that is released twice, one that was never given out, and an image registered again. -/
theorem handles_of_calls_released :
    let dot : Image := ⟨"image/png", [0]⟩
    let calls : List Call := [.register dot, .release (uri 0), .release (uri 0), .register dot,
      .release "", .register dot]
    let g := after {} calls
    calls.countP Call.registers < UInt64.size ∧
      ((issued {} calls).map ImageHandle.uri).Nodup ∧ g.find? (uri 1) = some dot ∧
      g.find? (uri 0) = none ∧ (g.release (uri 1)).1 = true ∧ (g.release (uri 0)).1 = false ∧
      g.size = 2 := by
  intro dot calls g
  have hfew : calls.countP Call.registers < UInt64.size := by decide
  obtain ⟨-, hnames, hfind, hrelease, hsize⟩ := handles_of_calls calls hfew
  have hfound : g.find? (uri 1) = some dot :=
    (hfind _ _).2 ⟨[.register dot, .release (uri 0), .release (uri 0)],
      [.release "", .register dot], rfl, by decide +kernel, by decide +kernel⟩
  have hgone : g.find? (uri 0) = none := by decide +kernel
  refine ⟨hfew, hnames, hfound, hgone, (hrelease _).1.2 ⟨dot, hfound⟩, ?_, ?_⟩
  · rw [release_fst, hgone]
    rfl
  · exact hsize.trans (by decide +kernel)

end TreeShell.Gallery
