import TreeShell.Proofs.Session.Rebuild
import TreeShell.Proofs.Snapshot.Storable

/-!
# Restarting After a Rebuild

A rebuilt tree is meant to outlive its session: the session saves it, and the next one loads it.
Four things have to fit together for that, and they were made apart. The listings and the
repository decide which names come into the tree, the printer writes whatever it is given, and the
reader has a reserved key and a limit of its own. Nothing checks in between, so a rebuild reports
success for trees that the reader will not give back.

`restart_iff_storable` draws the line exactly: the next session starts with the rebuilt tree if and
only if that tree is storable. One direction is the round trip of the codec. For the other, a tree
that cannot be stored is read as another one or not at all, and then the next session starts with
the default tree; that one is not the rebuilt tree either, because it could have been stored.

A repository that holds an entry with the reserved name is enough to lose the tree
(`reset_loses_reserved_name`).

## Theorems

* `Session.tree_boot`: A booted session has the stored tree, whatever line the boot runs.
* `storable_defaultTree`: The default tree can be stored.
* `Session.tree_restart`: A restart reads the snapshot of the rebuilt tree.
* `Session.restart_iff_storable`: A restart gives the rebuilt tree exactly if it can be stored.
-/

namespace TreeShell

/-- The default tree can be stored, unless its user is named like the reserved key. -/
theorem storable_defaultTree {user : String} (h : user ≠ ":") : (defaultTree user).Storable := by
  have hname : ∀ (name : String) (node : Node), name ≠ ":" →
      Dir.WellNamed (.entry name node .empty) := fun name node hne =>
    ⟨List.pairwise_singleton _ name, fun hm => hne (List.mem_singleton.1 hm).symm⟩
  have hempty : Dir.WellNamed .empty := ⟨List.nodup_nil, List.not_mem_nil⟩
  have hdefault : defaultTree user =
      .entry "home" (.dir (.entry user (.dir .empty) .empty)) .empty := rfl
  rw [hdefault]
  exact ⟨⟨hname "home" _ (by decide), ⟨hname user _ h, ⟨hempty, trivial⟩, trivial⟩, trivial⟩,
    Nat.le_of_ble_eq_true rfl⟩

namespace Session

/-- The line that a boot runs shows a file or goes to a directory. -/
theorem landing_line {s : Session} {hint line : String} (h : (s.landing hint).2 = some line) :
    ∃ command rest, words line = command :: rest ∧ command ∈ ["cat", "imgcat", "cd"] := by
  have hcd : ∀ name : String, words ("cd " ++ name) = "cd" :: words name := by
    intro name
    rw [show ("cd " : String) = "cd" ++ " " by decide]
    exact words_cons (by decide) name
  have hview : ∀ name rest : String, ∃ command, command ∈ ["cat", "imgcat", "cd"] ∧
      words (viewer s.config name ++ " " ++ rest) = command :: words rest := by
    intro name rest
    rw [viewer]
    split
    · exact ⟨"imgcat", by decide, words_cons (by decide) rest⟩
    · exact ⟨"cat", by decide, words_cons (by decide) rest⟩
  rw [landing] at h
  generalize s.storedTree.resolve s.home s.home _ = found at h
  -- Nothing there, a directory, a denied one, and a file that may not be read or may.
  rcases found with ⟨_ | entries | _ | _ | _, path⟩
  · rw [← Option.some.inj h]
    exact ⟨"cd", _, hcd _, by decide⟩
  · cases h
  · rw [← Option.some.inj h]
    exact ⟨"cd", _, hcd _, by decide⟩
  · rw [← Option.some.inj h]
    rcases hview (path.name?.getD "") path.text with ⟨command, hmem, hwords⟩
    exact ⟨command, _, hwords, hmem⟩
  · rw [← Option.some.inj h]
    rcases hview (path.name?.getD "") (path.name?.getD "") with ⟨command, hmem, hwords⟩
    exact ⟨command, _, hwords, hmem⟩

/-- A line that is no rebuild leaves the tree as it is. -/
theorem run_tree_of_ne {s : Session} (h : s.registry = .builtin) {line : String}
    (hline : words line ≠ ["taso-cli", "reset"]) : (s.run line).2.tree = s.tree := by
  have heffect := s.effect_line line h
  rw [run_tree]
  generalize (s.registry.execute line s.environment).2 = env at heffect ⊢
  cases heffect with
  | refused typed admin built => exact absurd typed hline
  | replaced typed admin built => exact absurd typed hline
  | _ => rfl

/-- A booted session has the stored tree, since the line that the boot may run is no rebuild. -/
theorem tree_boot {s : Session} (h : s.registry = .builtin) (hint : String) :
    (s.boot hint).tree = s.storedTree := by
  have hregistry : (s.landed hint).registry = .builtin :=
    (s.sameSetting_landed hint).registry.trans h
  have htree : (s.landed hint).tree = s.storedTree := by rw [landed]
  cases hline : (s.landing hint).2 with
  | none =>
      rw [boot_of_none hline]
      exact htree
  | some line =>
      rw [boot_of_some hline]
      rcases landing_line hline with ⟨command, rest, hwords, hmem⟩
      -- The line begins with the name of another command.
      have hother : words line ≠ ["taso-cli", "reset"] := by
        intro hreset
        rw [hreset] at hwords
        rw [← (List.cons.inj hwords).1] at hmem
        exact absurd hmem (by decide)
      exact (run_tree_of_ne hregistry hother).trans htree

/-- Where a snapshot is stored and can be loaded, the session starts with what it is read as. -/
theorem storedTree_of_held {s : Session} {snapshot : String} (hload : s.store.loadFault = none)
    (hheld : s.store.held = .text snapshot) :
    s.storedTree = (Snapshot.read snapshot).toOption.getD (defaultTree s.config.user) := by
  rw [storedTree, Store.found, hload, hheld]

/-- What a tree is read back as is the tree itself exactly if it can be stored. The default tree,
    which stands in for a snapshot that cannot be read, makes no exception. -/
theorem getD_read_snapshot_iff (root : Dir) (user : String) :
    (Snapshot.read root.snapshot).toOption.getD (defaultTree user) = root ↔ root.Storable := by
  constructor
  · intro h
    cases hread : Snapshot.read root.snapshot with
    | ok found =>
        rw [hread] at h
        change found = root at h
        exact h ▸ Snapshot.storable_of_read hread
    | error fault =>
        -- Nothing could be read, so the tree would have to be the default one.
        rw [hread] at h
        change defaultTree user = root at h
        by_cases huser : user = ":"
        · -- This default tree cannot be stored, but its snapshot can be read.
          have hsome : (Snapshot.read (defaultTree ":").snapshot).toOption.isSome = true := by
            decide +kernel
          rw [← huser, h, hread] at hsome
          cases hsome
        · exact h ▸ storable_defaultTree huser
  · intro h
    rw [Snapshot.read_snapshot h]
    rfl

section Restart

variable {s : Session} (h : s.registry = .builtin) {line : String}
  (hline : words line = ["taso-cli", "reset"]) (hprinted : (s.run line).1 = .text updatedText)
  (hload : s.store.loadFault = none) {setup : Setup} (hstore : setup.store = (s.run line).2.store)

include h hline hprinted hload hstore

/-- After a rebuild that reports success, the next session starts with what the snapshot of the
    rebuilt tree is read as. -/
theorem tree_restart (hint : String) : ((start setup).boot hint).tree =
    (Snapshot.read (s.run line).2.tree.snapshot).toOption.getD (defaultTree setup.config.user) := by
  have hsaved : (start setup).store = s.store.saved (s.run line).2.tree.snapshot :=
    hstore.trans (store_of_updated h hline hprinted)
  have hstored : (start setup).storedTree = _ :=
    storedTree_of_held (by rw [hsaved]; exact hload) (by rw [hsaved]; rfl)
  rw [tree_boot rfl, hstored]
  rfl

/-- So it has the rebuilt tree exactly if that tree can be stored. The store has to answer loads;
    that it took the save is known from the report. -/
theorem restart_iff_storable (hint : String) :
    ((start setup).boot hint).tree = (s.run line).2.tree ↔ (s.run line).2.tree.Storable := by
  rw [tree_restart h hline hprinted hload hstore]
  exact getD_read_snapshot_iff _ _

end Restart

/-- The demonstration survives a restart. -/
theorem restart_iff_storable_demo :
    let setup := demoSetup (.ofList [("README.md", .file true)])
    let after := ((start setup).run "taso-cli reset").2
    ((start { setup with store := after.store }).boot "").tree = after.tree := by
  intro setup after
  rcases run_reset_demo (s := start setup) (by decide) rfl rfl rfl rfl (by decide) rfl
    "taso-cli reset" (by decide) with ⟨traffic, hrun⟩
  have hprinted : ((start setup).run "taso-cli reset").1 = .text updatedText := by rw [hrun]
  have hiff := restart_iff_storable (s := start setup) rfl (by decide) hprinted rfl
    (rfl : { setup with store := after.store }.store = after.store) ""
  have htree : after.tree = demoTree (.ofList [("README.md", .file true)]) :=
    congrArg (fun run => run.2.tree) hrun
  have hstorable : (demoTree (.ofList [("README.md", .file true)])).Storable := by decide +kernel
  exact hiff.2 (htree ▸ hstorable)

/-- With an entry of the reserved name in the repository, the rebuild reports success, and the next
    session has another tree. -/
theorem reset_loses_reserved_name :
    let setup := demoSetup (.ofList [(":", .file true)])
    let rebuilt := (start setup).run "taso-cli reset"
    Path.OrdinaryName setup.config.user ∧ setup.store.saveFault = none ∧
      setup.store.loadFault = none ∧ rebuilt.1 = .text updatedText ∧
      ((start { setup with store := rebuilt.2.store }).boot "").tree ≠ rebuilt.2.tree := by
  intro setup rebuilt
  rcases run_reset_demo (s := start setup) (by decide) rfl rfl rfl rfl (by decide) rfl
    "taso-cli reset" (by decide) with ⟨traffic, hrun⟩
  have hprinted : rebuilt.1 = .text updatedText := congrArg Prod.fst hrun
  have htree : rebuilt.2.tree = demoTree (.ofList [(":", .file true)]) :=
    congrArg (fun run => run.2.tree) hrun
  refine ⟨by decide, rfl, rfl, hprinted, fun hsame => ?_⟩
  -- The next session would have the tree only if it could be stored.
  have hread := tree_restart (s := start setup) rfl (by decide) hprinted rfl
    (rfl : { setup with store := rebuilt.2.store }.store = rebuilt.2.store) ""
  have hstorable := (getD_read_snapshot_iff _ _).1 (hread.symm.trans hsame)
  rw [show ((start setup).run "taso-cli reset").2.tree = _ from htree] at hstorable
  exact absurd hstorable (by decide +kernel)

end Session

end TreeShell
