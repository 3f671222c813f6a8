import TreeShell.Proofs.Backend.Table
import TreeShell.Service.Image

/-!
# Registered Images

A gallery numbers its images and never takes a number twice. So the names in it are distinct, and
the next name is none of them: this much is kept by every operation (`Gallery.Sound`), and it is
what makes a handle mean one image for as long as the image is registered.

Images are released in groups, those of all outputs that are hidden at once, so releasing is
described for a list of names.

## Main definitions

* `Gallery.names`, `Gallery.handles`: The names in use, and the handles to all images.
* `Gallery.Sound`: The names are distinct, and none is still to come.

## Theorems

* `Gallery.uri_injective`: Different numbers make different names.
* `Gallery.Sound.register`, `Gallery.handles_register`: A registered image is new, and goes last.
* `Gallery.images_revoked`, `Gallery.next_revoked`: What is left when some names are released.
* `Gallery.Sound.find?_eq_some_iff`: Looking up a name finds the image that has it.
-/

namespace TreeShell.Gallery

/-- The names in use, in the order of registration. -/
def names (g : Gallery) : List String := g.images.map Prod.fst

/-- The handle to an image with its name. -/
def handle (e : String × Image) : ImageHandle := ⟨e.1, e.2.mime, e.2.bytes.length⟩

/-- The handles to all images, in the order of registration. -/
def handles (g : Gallery) : List ImageHandle := g.images.map handle

/-- The names in use are distinct, and their numbers lie below the next one. -/
structure Sound (g : Gallery) : Prop where
  distinct : g.names.Nodup
  issued : ∀ name ∈ g.names, ∃ n < g.next, name = uri n

/-- Different numbers make different names. -/
theorem uri_injective : Function.Injective uri := by
  intro m n h
  have hdigits : m.repr = n.repr := (String.append_right_inj _).1 h
  rw [Nat.repr_eq_ofList_toDigits, Nat.repr_eq_ofList_toDigits, String.ofList_inj] at hdigits
  -- The digits can be read back.
  have hvalue := congrArg (Nat.ofDigitChars 10 · 0) hdigits
  simpa only [Nat.ofDigitChars_toDigits (b := 10) (by decide) (by decide)] using hvalue

theorem map_uri_handles (g : Gallery) : g.handles.map ImageHandle.uri = g.names := by
  rw [handles, List.map_map]
  rfl

/-- A gallery without images is sound, whatever number comes next. -/
theorem sound_of_images {g : Gallery} (h : g.images = []) : g.Sound := by
  have hnames : g.names = [] := by
    rw [names, h]
    rfl
  constructor
  · rw [hnames]
    exact List.nodup_nil
  · rw [hnames]
    nofun

/-- The handle to a registered image goes last. -/
theorem handles_register (g : Gallery) (image : Image) :
    (g.register image).2.handles = g.handles ++ [(g.register image).1] := by
  rw [handles, register, List.map_append]
  rfl

namespace Sound

variable {g : Gallery} (h : g.Sound)

include h

/-- The next name is not in use. -/
theorem uri_next_notMem : uri g.next ∉ g.names := by
  intro hmem
  rcases h.issued _ hmem with ⟨n, hlt, heq⟩
  have hn : g.next = n := uri_injective heq
  omega

theorem register (image : Image) : (g.register image).2.Sound := by
  have hnames : (g.register image).2.names = g.names ++ [uri g.next] := by
    rw [names, Gallery.register, List.map_append]
    rfl
  constructor
  · rw [hnames, ← List.concat_eq_append]
    exact h.distinct.concat h.uri_next_notMem
  · intro name hname
    rw [hnames, List.mem_append, List.mem_singleton] at hname
    rcases hname with hname | rfl
    · rcases h.issued name hname with ⟨n, hlt, rfl⟩
      exact ⟨n, Nat.lt_succ_of_lt hlt, rfl⟩
    · exact ⟨g.next, Nat.lt_succ_self _, rfl⟩

/-- Looking up a name finds the image that has it. -/
theorem find?_eq_some_iff {name : String} {image : Image} :
    g.find? name = some image ↔ (name, image) ∈ g.images := by
  rw [find?, Table.lookup_eq_some_iff h.distinct]

end Sound

/-- Releasing names leaves the images under all others. -/
theorem images_revoked (g : Gallery) (released : List String) :
    (released.foldl revoke g).images = g.images.filter fun e => e.1 ∉ released := by
  induction released generalizing g with
  | nil => simp
  | cons name released ih =>
      rw [List.foldl_cons, ih, revoke, List.filter_filter]
      refine List.filter_congr fun e _ => ?_
      simp only [List.mem_cons, not_or, Bool.decide_and, ne_eq, decide_not]
      rw [Bool.and_comm]

/-- Releasing names gives no number back. -/
theorem next_revoked (g : Gallery) (released : List String) :
    (released.foldl revoke g).next = g.next := by
  induction released generalizing g with
  | nil => rfl
  | cons name released ih => exact ih (g.revoke name)

end TreeShell.Gallery
