import TreeShell.Proofs.Command.Ending
import TreeShell.Proofs.Service.Gallery
import TreeShell.Proofs.Session.Runs

/-!
# The Log and Its Images

Four parts of a session have to agree: the lines, their outputs, how many of both are hidden, and
the images that are registered. They are changed at different moments. A command registers its image
before the line is recorded, and the wish to clear the screen is fulfilled when the line is already
in the history and its output is not. `Logged` is what holds between lines.

It says more than that every visible image can be looked up. The registered images are those of the
visible outputs, in their order and each as often as it is shown, so no image is left behind when
its line is hidden. The order is a matter of the proof: images are registered as their lines are
recorded, and what is hidden is always all that is visible.

## Main definitions

* `Session.imageHandles`: The handles to the images among outputs.
* `Session.Logged`: The log is sound, and the gallery holds what it shows.

## Theorems

* `Session.Logged.append`: One more line, with its image if it shows one.
* `Session.logged_run`, `Session.logged_act`, `Session.logged_after`: Lines, actions and runs keep
  the log sound.
* `Session.images_hide`: Hiding releases all images.
* `Session.log_invariant`: All of this, said of the log as it is seen.
-/

namespace TreeShell.Session

/-- The handles to the images among outputs. -/
def imageHandles (outputs : List Output) : List ImageHandle :=
  outputs.filterMap fun
    | .image handle => some handle
    | _ => none

theorem imageHandles_append (first more : List Output) :
    imageHandles (first ++ more) = imageHandles first ++ imageHandles more :=
  List.filterMap_append

/-- Where there is no image there is no handle. -/
theorem imageHandles_singleton {output : Output} (h : ∀ handle, output ≠ .image handle) :
    imageHandles [output] = [] := by
  cases output with
  | image handle => exact absurd rfl (h handle)
  | _ => rfl

theorem mem_imageHandles_iff {outputs : List Output} {handle : ImageHandle} :
    handle ∈ imageHandles outputs ↔ .image handle ∈ outputs := by
  rw [imageHandles, List.mem_filterMap]
  constructor
  · rintro ⟨output, hmem, hhandle⟩
    cases output with
    | image handle' =>
        cases hhandle
        exact hmem
    | _ => cases hhandle
  · exact fun hmem => ⟨_, hmem, rfl⟩

theorem imageNames_eq (outputs : List Output) :
    imageNames outputs = (imageHandles outputs).map ImageHandle.uri := by
  rw [imageNames, imageHandles, List.map_filterMap]
  refine List.filterMap_congr fun output _ => ?_
  cases output <;> rfl

/-- Each line has its output, no more lines are hidden than there are, the wish to clear the screen
    is not recorded, and the registered images are those of the visible outputs. -/
structure Logged (s : Session) : Prop where
  aligned : s.history.length = s.outputs.length
  window : s.hidden ≤ s.history.length
  noClear : .clear ∉ s.outputs
  sound : s.gallery.Sound
  shown : s.gallery.handles = imageHandles (s.outputs.drop s.hidden)

theorem logged_overTree (setup : Setup) (tree : Dir) : (overTree setup tree).Logged where
  aligned := rfl
  window := Nat.le_refl 0
  noClear := List.not_mem_nil
  sound := Gallery.sound_of_images rfl
  shown := rfl

/-- Hiding releases all images, where the registered ones are those of the visible outputs. -/
theorem images_hide {s : Session}
    (h : s.gallery.handles = imageHandles (s.outputs.drop s.hidden)) :
    s.hide.gallery.images = [] := by
  have hnames : imageNames (s.outputs.drop s.hidden) = s.gallery.names := by
    rw [imageNames_eq, ← h, Gallery.map_uri_handles]
  rw [hide, Gallery.images_revoked, hnames, List.filter_eq_nil_iff]
  intro e he
  have hmem : e.1 ∈ s.gallery.names := List.mem_map_of_mem he
  simpa using hmem

/-- Where everything is hidden and no image is registered, nothing is left to agree. -/
theorem logged_of_hidden {s : Session} (haligned : s.history.length = s.outputs.length)
    (hclear : .clear ∉ s.outputs) (hhidden : s.hidden = s.history.length)
    (himages : s.gallery.images = []) : s.Logged where
  aligned := haligned
  window := Nat.le_of_eq hhidden
  noClear := hclear
  sound := Gallery.sound_of_images himages
  shown := by
    have hle : s.outputs.length ≤ s.hidden := Nat.le_of_eq (haligned.symm.trans hhidden.symm)
    rw [Gallery.handles, himages, List.drop_eq_nil_of_le hle]
    rfl

namespace Logged

variable {s s' : Session} (h : s.Logged)

include h

/-- One more line keeps the log sound, with its image if it shows one. -/
theorem append {entry : HistoryEntry} {output : Output}
    (hhistory : s'.history = s.history ++ [entry]) (houtputs : s'.outputs = s.outputs ++ [output])
    (hhidden : s'.hidden = s.hidden) (hclear : output ≠ .clear) (hsound : s'.gallery.Sound)
    (hshown : s'.gallery.handles = s.gallery.handles ++ imageHandles [output]) : s'.Logged where
  aligned := by
    rw [hhistory, houtputs, List.length_append, List.length_append, h.aligned]
    rfl
  window := by
    rw [hhidden, hhistory, List.length_append]
    exact Nat.le_add_right_of_le h.window
  noClear := by
    rw [houtputs, List.mem_append, List.mem_singleton]
    exact fun hmem => hmem.elim h.noClear fun he => hclear he.symm
  sound := hsound
  shown := by
    -- The new output is visible, since it comes after all that is hidden.
    have hle : s.hidden ≤ s.outputs.length := h.aligned ▸ h.window
    rw [hshown, houtputs, hhidden, List.drop_append_of_le_length hle, imageHandles_append,
      h.shown]

/-- The visible part of a sound log has the visible outputs. -/
theorem map_visible : s.visible.map Prod.snd = s.outputs.drop s.hidden := by
  rw [visible, log, List.map_drop, List.map_snd_zip (Nat.le_of_eq h.aligned.symm)]

end Logged

/-- A line that clears the screen leaves a sound log of which nothing is visible, and no image. -/
theorem Logged.clear {s : Session} (h : s.Logged) {line : String} {env : Environment}
    (hexec : s.registry.execute line s.environment = (.clear, env))
    (hgallery : env.gallery = s.gallery) :
    (s.run line).2.Logged ∧ (s.run line).2.hidden = (s.run line).2.history.length ∧
      (s.run line).2.gallery.images = [] := by
  rw [s.run_of_clear line hexec]
  -- It is hidden when the line is in the history already and its output is not.
  let begun : Session := { s.absorb env with history := s.history ++ [⟨s.prompt, line⟩] }
  have hshown : begun.gallery.handles = imageHandles (begun.outputs.drop begun.hidden) := by
    show env.gallery.handles = imageHandles (s.outputs.drop s.hidden)
    rw [hgallery]
    exact h.shown
  have himages : begun.hide.gallery.images = [] := images_hide hshown
  refine ⟨logged_of_hidden ?_ ?_ rfl himages, rfl, himages⟩
  · rw [List.length_append, ← h.aligned]
    exact List.length_append
  · rw [List.mem_append]
    exact fun hmem => hmem.elim h.noClear nofun

/-- Every line keeps the log sound. -/
theorem logged_run {s : Session} (h : s.Logged) (hregistry : s.registry = .builtin)
    (line : String) : (s.run line).2.Logged := by
  rcases s.ends_line line hregistry with ⟨result, env, _, hexec, hends⟩
  have hplain {output : Output} (hexec : s.registry.execute line s.environment = (output, env))
      (himage : ∀ handle, output ≠ .image handle) (hgallery : env.gallery = s.gallery) :
      (s.run line).2.Logged := by
    by_cases hclear : output = .clear
    · rw [hclear] at hexec
      exact (h.clear hexec hgallery).1
    · have hsound : env.gallery.Sound := hgallery ▸ h.sound
      have hshown : env.gallery.handles = s.gallery.handles ++ imageHandles [output] := by
        rw [imageHandles_singleton himage, hgallery, List.append_nil]
      rw [s.run_of_output line hexec hclear]
      exact h.append rfl rfl rfl hclear hsound hshown
  -- Only one way to end shows an image, and all others leave the gallery as it was.
  cases hends with
  | shown image =>
      rw [s.run_of_output line hexec nofun]
      exact h.append rfl rfl rfl nofun (h.sound.register image) (s.gallery.handles_register image)
  | looked plain => exact hplain hexec plain.notImage rfl
  | fetched plain => exact hplain hexec plain.notImage rfl
  | _ => exact hplain hexec nofun rfl

/-- So does every action. -/
theorem logged_act {s : Session} (h : s.Logged) (hregistry : s.registry = .builtin)
    (action : Action) : (s.act action).Logged := by
  cases action with
  | boot hint =>
      have hlanded : (s.landed hint).Logged := by
        unfold landed
        generalize (s.landing hint).1 = cwd
        exact h.append rfl rfl rfl nofun h.sound (List.append_nil _).symm
      rw [act]
      cases hline : (s.landing hint).2 with
      | none =>
          rw [boot_of_none hline]
          exact hlanded
      | some line =>
          rw [boot_of_some hline]
          exact logged_run hlanded ((s.sameSetting_landed hint).registry.trans hregistry) line
  | line text => exact logged_run h hregistry text
  | hide => exact logged_of_hidden h.aligned h.noClear rfl (images_hide h.shown)
  | outside w => exact ⟨h.aligned, h.window, h.noClear, h.sound, h.shown⟩

/-- And every run, by induction on its actions. -/
theorem logged_after {s : Session} (h : s.Logged) (hregistry : s.registry = .builtin)
    (actions : List Action) : (s.after actions).Logged := by
  induction actions generalizing s with
  | nil => exact h
  | cons action actions ih =>
      rw [after_cons]
      exact ih (logged_act h hregistry action) ((s.sameSetting_act action).registry.trans hregistry)

/-- Nothing is visible where everything is hidden. -/
theorem visible_of_hidden {s : Session} (h : s.hidden = s.history.length) : s.visible = [] := by
  rw [visible, log, List.drop_eq_nil_iff, List.length_zip, h]
  exact Nat.min_le_left _ _

/-- Whatever happens to a session: every line has its output, no more lines are hidden than there
    are, and the wish to clear the screen is not recorded. Every visible image is registered under a
    name of its own, with the type and the size that its handle says, and nothing else is
    registered. After the screen was cleared, by a line or by the host, nothing is visible and
    nothing registered. -/
theorem log_invariant (setup : Setup) (tree : Dir) (actions : List Action) :
    let s := (overTree setup tree).after actions
    let shown := s.visible.map Prod.snd
    (s.history.length = s.outputs.length ∧ s.hidden ≤ s.history.length ∧ .clear ∉ s.outputs) ∧
    (∀ handle, .image handle ∈ shown → ∃ image, s.gallery.find? handle.uri = some image ∧
      image.mime = handle.mime ∧ image.bytes.length = handle.size) ∧
    ((imageNames shown).Nodup ∧ s.gallery.images.map Prod.fst = imageNames shown) ∧
    (∀ line, words line = ["clear"] →
      (s.run line).2.visible = [] ∧ (s.run line).2.gallery.images = []) ∧
    s.hide.visible = [] ∧ s.hide.gallery.images = [] := by
  intro s shown
  have hregistry : s.registry = .builtin :=
    ((overTree setup tree).sameSetting_after actions).registry
  have h : s.Logged := logged_after (logged_overTree setup tree) rfl actions
  have hnames : s.gallery.names = imageNames shown := by
    rw [← Gallery.map_uri_handles, h.shown, ← h.map_visible, imageNames_eq]
  have hdistinct : (imageNames shown).Nodup := hnames ▸ h.sound.distinct
  have himages : s.hide.gallery.images = [] := images_hide h.shown
  have hvisible : s.hide.visible = [] := visible_of_hidden rfl
  refine ⟨⟨h.aligned, h.window, h.noClear⟩, fun handle hmem => ?_, ⟨hdistinct, hnames⟩,
    fun line hline => ?_, hvisible, himages⟩
  · -- A visible image is a registered one, and its handle is made of it.
    rw [← mem_imageHandles_iff, show shown = s.outputs.drop s.hidden from h.map_visible,
      ← h.shown] at hmem
    rcases List.mem_map.1 hmem with ⟨⟨name, image⟩, himage, rfl⟩
    exact ⟨image, h.sound.find?_eq_some_iff.2 himage, rfl, rfl⟩
  · have hexec : s.registry.execute line s.environment = (.clear, s.environment) := by
      rw [hregistry, Registry.execute, hline]
      rfl
    rcases h.clear hexec rfl with ⟨_, hhidden, himages⟩
    exact ⟨visible_of_hidden hhidden, himages⟩

end TreeShell.Session
