import TreeShell.Proofs.Tree.Ensured
import TreeShell.Proofs.Tree.Grown

/-!
# Levels That Write over Each Other

Where two entries of a level have one name, the later one is what is planted. If both are branches,
their levels go into one directory, one after the other, and what the second of them plants takes
the place of what stands there under that name, with all that was below it. So an entry can be
written over by its own level, by another level of its directory, or above itself.

A build is determined by this, and no condition on the names is needed to say what it comes to. As
far as a level goes, the last entry of a name counts. Among the branches of one name the last is
asked for first, so the first of them writes last. `Stays` puts the two together along a path. What
stays at a path is what the tree has there, and where nothing stays it has nothing
(`bare_nodeAt?_grow_iff`).

The loop is seen from one path, and a pending key matters to it only if its level writes there or
above. Among those that do the one furthest down in the stack is asked for last, and the tree agrees
with it in the end, whatever the others write. From there the induction goes one name further: what
is pending for that name is now on top of the stack.

## Main definitions

* `Sprout.Outlasts`: An entry of a level with no later one of its name.
* `Stays`: An entry that nothing writes over, with the key of its level.
* `Spares`: A pending key whose level writes neither at a path nor above it.

## Theorems

* `Dir.find?_plant_of_notMem`, `Dir.find?_plant_of_outlasts`: What a level writes at a name.
* `bare_nodeAt?_grow`: The loop leaves a path alone that all pending keys spare.
* `bare_nodeAt?_grow_iff`: The tree has at a path what stays there, and nothing else.
* `exists_asked`: The keys asked for, with what goes down from a key to those below it.
* `exists_asked_stays`: Where no level asked for has a name twice, every entry stays.
-/

namespace TreeShell

variable {κ σ : Type} {level : κ → Except Fault (List (Sprout κ))}
  {ask : κ → Asking σ (List (Sprout κ))}

/-- `sprout` is the last entry of its name in a level. -/
def Sprout.Outlasts (sprouts : List (Sprout κ)) (sprout : Sprout κ) : Prop :=
  ∃ before later, sprouts = before ++ sprout :: later ∧ sprout.name ∉ later.map Sprout.name

/-- `Stays level key path k sprout`: in the tree from `key`, the entry `sprout` in the level of `k`
    stands at `path` and nothing is written over it. -/
inductive Stays (level : κ → Except Fault (List (Sprout κ))) :
    κ → List String → κ → Sprout κ → Prop where
  /-- In its own level it is the last of its name. -/
  | here {key : κ} {sprouts : List (Sprout κ)} {sprout : Sprout κ}
      (answer : level key = .ok sprouts) (last : sprout.Outlasts sprouts) :
      Stays level key [sprout.name] key sprout
  /-- The branch on the way to it may have a later namesake, if a branch is the last of them. No
      namesake before it, whose level comes later, has the next name of the way in its level. -/
  | further {key next last k : κ} {name first : String} {rest : List String}
      {before later : List (Sprout κ)} {sprout : Sprout κ}
      (answer : level key = .ok (before ++ .branch name next :: later))
      (stands : (Sprout.branch name last).Outlasts (before ++ .branch name next :: later))
      (unwritten : ∀ other, .branch name other ∈ before → ∀ sprouts, level other = .ok sprouts →
        first ∉ sprouts.map Sprout.name)
      (onward : Stays level next (first :: rest) k sprout) :
      Stays level key (name :: first :: rest) k sprout

/-- The level of the pending key `p` writes neither at `path` nor above it. -/
def Spares (level : κ → Except Fault (List (Sprout κ))) (path : List String)
    (p : κ × List String) : Prop :=
  ∀ name rest, path = p.2 ++ name :: rest → ∀ sprouts, level p.1 = .ok sprouts →
    name ∉ sprouts.map Sprout.name

/-- A key is pending for `above`, between `before` and `after`, and it is the last that writes at
    `path` or above. The further down a key is in the stack, the higher up its place is. -/
structure Due (level : κ → Except Fault (List (Sprout κ))) (path above : List String)
    (before after : List (κ × List String)) : Prop where
  deeper : ∀ p ∈ before, above.length ≤ p.2.length
  higher : ∀ p ∈ after, p.2.length ≤ above.length
  spares : ∀ p ∈ after, Spares level path p

namespace Sprout

variable {sprouts : List (Sprout κ)} {name : String}

/-- Each name of a level has a last entry. -/
theorem exists_outlasts (h : name ∈ sprouts.map Sprout.name) :
    ∃ sprout : Sprout κ, sprout.Outlasts sprouts ∧ sprout.name = name := by
  induction sprouts with
  | nil => cases h
  | cons sprout later ih =>
      by_cases hlater : name ∈ later.map Sprout.name
      · obtain ⟨last, ⟨before, after, rfl, hlast⟩, hname⟩ := ih hlater
        exact ⟨last, ⟨sprout :: before, after, rfl, hlast⟩, hname⟩
      · rcases List.mem_cons.1 h with rfl | hmem
        · exact ⟨sprout, ⟨[], later, rfl, hlater⟩, rfl⟩
        · exact absurd hmem hlater

theorem Outlasts.mem {sprout : Sprout κ} (h : sprout.Outlasts sprouts) : sprout ∈ sprouts := by
  obtain ⟨before, later, rfl, _⟩ := h
  exact List.mem_append_right _ List.mem_cons_self

/-- Where no name is there twice, each entry is the last of its name. -/
theorem outlasts_of_nodup (h : (sprouts.map Sprout.name).Nodup) {sprout : Sprout κ}
    (hmem : sprout ∈ sprouts) : sprout.Outlasts sprouts := by
  obtain ⟨before, later, rfl⟩ := List.append_of_mem hmem
  rw [List.map_append, List.map_cons, List.nodup_append] at h
  exact ⟨before, later, rfl, (List.nodup_cons.1 h.2.1).1⟩

/-- Only a branch is planted as a readable directory. -/
theorem exists_branch (hclosed : Closed sprouts) {sprout : Sprout κ} (hmem : sprout ∈ sprouts)
    (h : sprout.node.bare = .dir .empty) : ∃ key, sprout = .branch sprout.name key := by
  cases sprout with
  | leaf name node =>
      obtain ⟨entries, rfl⟩ := Node.bare_eq_dir_iff.1 h
      exact absurd hmem (hclosed name entries)
  | branch name key => exact ⟨key, rfl⟩

/-- There is a first branch of the name `name` whose level has the name `next`, or none has it. -/
theorem exists_first_branch (level : κ → Except Fault (List (Sprout κ)))
    (sprouts : List (Sprout κ)) (name next : String) :
    (∀ key, .branch name key ∈ sprouts → ∀ below, level key = .ok below →
      next ∉ below.map Sprout.name) ∨
    ∃ front key behind below, sprouts = front ++ .branch name key :: behind ∧
      level key = .ok below ∧ next ∈ below.map Sprout.name ∧
      ∀ other, .branch name other ∈ front → ∀ below, level other = .ok below →
        next ∉ below.map Sprout.name := by
  induction sprouts with
  | nil => exact .inl fun key hmem => absurd hmem List.not_mem_nil
  | cons sprout later ih =>
      by_cases hfirst : ∃ key below, sprout = .branch name key ∧ level key = .ok below ∧
        next ∈ below.map Sprout.name
      · obtain ⟨key, below, rfl, answer, hnext⟩ := hfirst
        exact .inr ⟨[], key, later, below, rfl, answer, hnext,
          fun other hmem => absurd hmem List.not_mem_nil⟩
      · have hsprout : ∀ key, .branch name key = sprout → ∀ below, level key = .ok below →
            next ∉ below.map Sprout.name := fun key hkey below answer hnext =>
          hfirst ⟨key, below, hkey.symm, answer, hnext⟩
        rcases ih with hnone | ⟨front, key, behind, below, rfl, answer, hnext, hfront⟩
        · exact .inl fun key hmem =>
            (List.mem_cons.1 hmem).elim (hsprout key) (hnone key)
        · exact .inr ⟨sprout :: front, key, behind, below, rfl, answer, hnext,
            fun other hmem => (List.mem_cons.1 hmem).elim (hsprout other) (hfront other)⟩

end Sprout

namespace Stays

variable {key k : κ} {path : List String} {sprout : Sprout κ} (h : Stays level key path k sprout)

include h

/-- What stays was found in a level, and the names lead there. -/
theorem leads : ∃ segments sprouts, path = segments ++ [sprout.name] ∧
    Leads level key segments k ∧ level k = .ok sprouts ∧ sprout ∈ sprouts := by
  induction h with
  | here answer last => exact ⟨[], _, rfl, .here, answer, last.mem⟩
  | further answer _ _ _ ih =>
      rcases ih with ⟨segments, sprouts, hpath, hleads, hk, hmem⟩
      exact ⟨_ :: segments, sprouts, congrArg _ hpath,
        .step answer (List.mem_append_right _ List.mem_cons_self) hleads, hk, hmem⟩

/-- Its path begins with a name of the level it is looked for from. -/
theorem head_mem {first : String} {rest : List String} (hpath : path = first :: rest) :
    ∃ sprouts, level key = .ok sprouts ∧ first ∈ sprouts.map Sprout.name := by
  cases h with
  | here answer last =>
      cases hpath
      exact ⟨_, answer, List.mem_map_of_mem last.mem⟩
  | further answer _ _ _ =>
      cases hpath
      refine ⟨_, answer, ?_⟩
      rw [List.map_append]
      exact List.mem_append_right _ List.mem_cons_self

/-- Where a level has no name twice, what stays below one of its branches stays. -/
theorem branch {above : κ} {sprouts : List (Sprout κ)} (answer : level above = .ok sprouts)
    (hnodup : (sprouts.map Sprout.name).Nodup) {name : String} (hmem : .branch name key ∈ sprouts) :
    Stays level above (name :: path) k sprout := by
  obtain ⟨segments, _, rfl, _, _, _⟩ := h.leads
  obtain ⟨first, rest, hpath⟩ := List.exists_cons_of_ne_nil
    (List.append_ne_nil_of_right_ne_nil segments (List.cons_ne_nil sprout.name []))
  rw [hpath] at h ⊢
  have hlast := Sprout.outlasts_of_nodup hnodup hmem
  obtain ⟨before, later, rfl⟩ := List.append_of_mem hmem
  refine .further answer hlast (fun other hother => ?_) h
  rw [List.map_append, List.nodup_append] at hnodup
  exact absurd rfl (hnodup.2.2 name (List.mem_map_of_mem hother) name List.mem_cons_self)

end Stays

namespace Spares

variable {path : List String} {key : κ} {segments : List String}

/-- What spares a path spares what is above it. -/
theorem of_append {more : List String} {p : κ × List String} (h : Spares level (path ++ more) p) :
    Spares level path p := by
  rintro name rest rfl sprouts answer
  exact h name (rest ++ more) (by rw [List.append_assoc, List.cons_append]) sprouts answer

/-- A level is spared where its own key writes further down. -/
theorem of_length_le {p : κ × List String} (h : path.length ≤ p.2.length) :
    Spares level path p := by
  rintro name rest rfl
  rw [List.length_append, List.length_cons] at h
  omega

end Spares

namespace Due

variable {path above : List String} {before after : List (κ × List String)}

theorem tail {p : κ × List String} (h : Due level path above (p :: before) after) :
    Due level path above before after :=
  ⟨fun q hq => h.deeper q (List.mem_cons_of_mem p hq), h.higher, h.spares⟩

/-- What comes back before it leaves it due. -/
theorem pushed {key : κ} {segments : List String} {sprouts : List (Sprout κ)}
    (h : Due level path above ((key, segments) :: before) after) :
    Due level path above (stacked segments sprouts before) after := by
  refine ⟨fun p hp => ?_, h.higher, h.spares⟩
  rcases mem_stacked_iff.1 hp with ⟨name, k, _, rfl⟩ | hp
  · have hdeeper : above.length ≤ segments.length := h.deeper _ List.mem_cons_self
    exact hdeeper.trans (by simp)
  · exact h.tail.deeper p hp

/-- When it comes back itself, the first of its branches that writes further on is due. -/
theorem branch {first second : String} {more : List String}
    (h : Due level (above ++ first :: second :: more) above [] after)
    {front : List (Sprout κ)} (hunwritten : ∀ other, .branch first other ∈ front → ∀ sprouts,
      level other = .ok sprouts → second ∉ sprouts.map Sprout.name)
    (behind : List (Sprout κ)) :
    Due level ((above ++ [first]) ++ second :: more) (above ++ [first])
      (stacked above behind []) (stacked above front after) := by
  rw [← List.append_cons]
  constructor
  · intro p hp
    rcases mem_stacked_iff.1 hp with ⟨name, k, _, rfl⟩ | hp
    · simp
    · cases hp
  · intro p hp
    rcases mem_stacked_iff.1 hp with ⟨name, k, _, rfl⟩ | hp
    · simp
    · exact (h.higher p hp).trans (by simp)
  · intro p hp
    rcases mem_stacked_iff.1 hp with ⟨name, k, hmem, rfl⟩ | hp
    · rintro next after hpath
      rw [List.append_assoc, List.append_cancel_left_eq] at hpath
      cases hpath
      exact hunwritten k hmem
    · exact h.spares p hp

end Due

namespace Dir

/-- A level writes nothing at a name that it does not have. -/
theorem find?_plant_of_notMem {sprouts : List (Sprout κ)} {name : String}
    (h : name ∉ sprouts.map Sprout.name) (d : Dir) :
    (d.plant sprouts).find? name = d.find? name := by
  induction sprouts generalizing d with
  | nil => rfl
  | cons sprout later ih =>
      rw [List.map_cons, List.mem_cons, not_or] at h
      exact (ih h.2 _).trans (find?_insert_of_ne h.1 _ d)

/-- At any other name it writes the last entry. -/
theorem find?_plant_of_outlasts {sprouts : List (Sprout κ)} {sprout : Sprout κ}
    (h : sprout.Outlasts sprouts) (d : Dir) :
    (d.plant sprouts).find? sprout.name = some sprout.node := by
  obtain ⟨before, later, rfl, hlater⟩ := h
  have hplant : d.plant (before ++ sprout :: later) =
      ((d.plant before).insert sprout.name sprout.node).plant later := by
    rw [plant, plant, plant, List.foldl_append, List.foldl_cons]
  rw [hplant, find?_plant_of_notMem hlater, find?_insert_self]

/-- What is planted last under a name is an empty directory if it is a branch. -/
theorem dirAt?_branch {sprouts : List (Sprout κ)} {tree here : Dir} {above : List String}
    (hdir : tree.dirAt? above = some (here.plant sprouts)) {name : String} {key : κ}
    (h : (Sprout.branch name key).Outlasts sprouts) :
    tree.dirAt? (above ++ [name]) = some .empty := by
  have hfind : (here.plant sprouts).find? name = some (.dir .empty) :=
    find?_plant_of_outlasts h here
  rw [dirAt?_eq_some_iff_nodeAt?, nodeAt?_append_of_dirAt? hdir, nodeAt?_cons, hfind]
  rfl

/-- A walk that ends no higher up leaves a directory. -/
theorem exists_dirAt?_update_of_length_le (change : Dir → Dir) {tree here : Dir}
    {above segments : List String} (hplace : tree.dirAt? above = some here)
    (hlength : above.length ≤ segments.length) :
    ∃ here', (tree.update change segments).1.dirAt? above = some here' := by
  have hsame : segments <+: above → segments = above := fun hbegin =>
    hbegin.eq_of_length_le hlength
  have hhere := bare_nodeAt?_update change hsame (dirAt?_eq_some_iff_nodeAt?.1 hplace)
  rcases Option.map_eq_some_iff.1 hhere with ⟨node, hnode, hbare⟩
  obtain ⟨here', rfl⟩ := Node.bare_eq_dir_iff.1 hbare
  exact ⟨here', dirAt?_eq_some_iff_nodeAt?.2 hnode⟩

/-- A level that writes neither at a path nor above it leaves the kind and the access there. If
    nothing stands there, the walk to the level's place must not come by. -/
theorem bare_nodeAt?_plant {path segments : List String} {sprouts : List (Sprout κ)} (tree : Dir)
    (hspares : ∀ name rest, path = segments ++ name :: rest → name ∉ sprouts.map Sprout.name)
    (hstands : path <+: segments → ∃ node, tree.nodeAt? path = some node) :
    ((tree.update (plant sprouts) segments).1.nodeAt? path).map Node.bare =
      (tree.nodeAt? path).map Node.bare := by
  by_cases hbelow : segments <+: path
  · obtain ⟨rest, rfl⟩ := hbelow
    cases rest with
    | nil =>
        rw [List.append_nil] at hstands ⊢
        rcases hstands (List.prefix_refl _) with ⟨node, hnode⟩
        rw [hnode]
        exact bare_nodeAt?_update _ (fun _ => rfl) hnode
    | cons name rest =>
        cases harrived : (tree.update (plant sprouts) segments).2 with
        | false => rw [update_refused harrived]
        | true =>
            rw [nodeAt?_append_of_dirAt? (dirAt?_update_self harrived), nodeAt?_cons,
              find?_plant_of_notMem (hspares name rest rfl), ← nodeAt?_cons]
            cases hdir : tree.dirAt? segments with
            | some here => rw [openedAt_of_dirAt? hdir, nodeAt?_append_of_dirAt? hdir]
            | none =>
                -- The place is new, so nothing stood below it.
                cases hnode : tree.nodeAt? (segments ++ name :: rest) with
                | none => rw [openedAt, hdir, Option.getD_none, nodeAt?_cons]; rfl
                | some node =>
                    rcases exists_dirAt?_of_nodeAt?_append (List.cons_ne_nil _ _) hnode with
                      ⟨here, hhere, _⟩
                    rw [hdir] at hhere
                    cases hhere
  · by_cases habove : path <+: segments
    · rcases hstands habove with ⟨node, hnode⟩
      rw [hnode]
      exact bare_nodeAt?_update _ (fun hp => absurd hp hbelow) hnode
    · rw [nodeAt?_update_beside _ hbelow habove]

end Dir

section Loop

variable (hask : ∀ key s, (ask key s).1 = level key) {root : Dir} {last : σ}

include hask

/-- A step of a loop that comes to a tree: a level came back, and if its place can be come to it was
    planted there and its branches are pending. -/
theorem GrowsTo.step {key : κ} {segments : List String} {pending : List (κ × List String)}
    {tree : Dir} {s : σ} {asked : List κ}
    (h : GrowsTo ask ((key, segments) :: pending) tree s asked (.ok root) last) :
    ∃ later next sprouts, key :: later = asked ∧ level key = .ok sprouts ∧
      ((tree.update (Dir.plant sprouts) segments).2 = true ∧
        GrowsTo ask (stacked segments sprouts pending) (tree.update (Dir.plant sprouts) segments).1
          next later (.ok root) last ∨
      (tree.update (Dir.plant sprouts) segments).2 = false ∧
        GrowsTo ask pending tree next later (.ok root) last) := by
  have hanswer := hask key s
  cases h with
  | @planted _ _ _ _ grown _ next _ sprouts later _ answer arrived rest =>
      rw [answer] at hanswer
      exact ⟨later, next, sprouts, rfl, hanswer.symm, .inl (by rw [arrived]; exact ⟨rfl, rest⟩)⟩
  | @dropped _ _ _ _ grown _ next _ sprouts later _ answer stopped rest =>
      rw [answer] at hanswer
      have hsame := Dir.update_refused (congrArg Prod.snd stopped)
      rw [stopped] at hsame
      obtain rfl : grown = tree := congrArg Prod.fst hsame
      exact ⟨later, next, sprouts, rfl, hanswer.symm, .inr ⟨congrArg Prod.snd stopped, rest⟩⟩

/-- The loop leaves the kind and the access at a path that all pending keys spare. If nothing stands
    there, no pending key may lie at the path or below it. -/
theorem bare_nodeAt?_grow {asked : List κ} {path : List String} {pending : List (κ × List String)}
    {tree : Dir} (hspares : ∀ p ∈ pending, Spares level path p)
    (hstands : ∀ p ∈ pending, path <+: p.2 → ∃ node, tree.nodeAt? path = some node) {s : σ}
    (h : GrowsTo ask pending tree s asked (.ok root) last) :
    (root.nodeAt? path).map Node.bare = (tree.nodeAt? path).map Node.bare := by
  induction asked generalizing pending tree s with
  | nil =>
      cases h
      rfl
  | cons first asked ih =>
      obtain ⟨⟨key, segments⟩, pending, rfl⟩ := h.exists_pending
      have hlater : ∀ p ∈ pending, Spares level path p := fun p hp =>
        hspares p (List.mem_cons_of_mem _ hp)
      obtain ⟨_, next, sprouts, hasked, answer, ⟨-, hgrow⟩ | ⟨-, hgrow⟩⟩ := h.step hask
      all_goals obtain ⟨rfl, rfl⟩ := List.cons.inj hasked
      · have hhere : ∀ name rest, path = segments ++ name :: rest →
            name ∉ sprouts.map Sprout.name := fun name rest hpath =>
          hspares _ List.mem_cons_self name rest hpath sprouts answer
        have hsame := Dir.bare_nodeAt?_plant tree hhere (hstands _ List.mem_cons_self)
        have hkept {node : Node} (hnode : tree.nodeAt? path = some node) : ∃ node,
            (tree.update (Dir.plant sprouts) segments).1.nodeAt? path = some node := by
          rw [hnode] at hsame
          rcases Option.map_eq_some_iff.1 hsame with ⟨new, hnew, _⟩
          exact ⟨new, hnew⟩
        rw [← hsame]
        refine ih (fun p hp => ?_) (fun p hp hpath => ?_) hgrow
        · rcases mem_stacked_iff.1 hp with ⟨name, k, hmem, rfl⟩ | hp
          · -- A branch that writes there would have been written there itself.
            rintro first rest rfl
            exact absurd (List.mem_map_of_mem hmem)
              (hhere name (first :: rest) (by rw [List.append_assoc]; rfl))
          · exact hlater p hp
        · rcases mem_stacked_iff.1 hp with ⟨name, k, hmem, rfl⟩ | hp
          · rcases List.prefix_concat_iff.1 hpath with hpath | hpath
            · exact absurd (List.mem_map_of_mem hmem) (hhere name [] hpath)
            · rcases hstands _ List.mem_cons_self hpath with ⟨node, hnode⟩
              exact hkept hnode
          · rcases hstands p (List.mem_cons_of_mem _ hp) hpath with ⟨node, hnode⟩
            exact hkept hnode
      · exact ih hlater (fun p hp => hstands p (List.mem_cons_of_mem _ hp)) hgrow

section Planted

variable {asked : List κ} {sprouts : List (Sprout κ)} {after : List (κ × List String)}
  {tree here : Dir} {above : List String} {first : String} {rest : List String} {s : σ}
  (hdir : tree.dirAt? above = some (here.plant sprouts))
  (hdue : Due level (above ++ first :: rest) above [] after)
  (h : GrowsTo ask (stacked above sprouts after) tree s asked (.ok root) last)

include hdir hdue h

/-- Once a level is planted, the last entry of a name keeps its kind and its access. -/
theorem bare_nodeAt?_of_outlasts {sprout : Sprout κ} (hlast : sprout.Outlasts sprouts)
    (hname : sprout.name = first) :
    (root.nodeAt? (above ++ [first])).map Node.bare = some sprout.node.bare := by
  have hnode : tree.nodeAt? (above ++ [first]) = some sprout.node := by
    rw [Dir.nodeAt?_append_of_dirAt? hdir, Dir.nodeAt?_cons, ← hname,
      Dir.find?_plant_of_outlasts hlast, Option.bind_some, Node.nodeAt?_nil]
  refine (bare_nodeAt?_grow hask (fun p hp => ?_) (fun _ _ _ => ⟨_, hnode⟩) h).trans
    (congrArg (Option.map Node.bare) hnode)
  rcases mem_stacked_iff.1 hp with ⟨name, key, _, rfl⟩ | hp
  · exact .of_length_le (by simp)
  · exact .of_append (List.append_cons above first rest ▸ hdue.spares p hp)

/-- What no branch of a name has in its level does not come to stand below that name. -/
theorem nodeAt?_of_unlisted {key : κ} (hlast : (Sprout.branch first key).Outlasts sprouts)
    {second : String} {more : List String} (hrest : rest = second :: more)
    (hunlisted : ∀ key, .branch first key ∈ sprouts → ∀ below, level key = .ok below →
      second ∉ below.map Sprout.name) : root.nodeAt? (above ++ first :: rest) = none := by
  have hsplit : above ++ first :: rest = (above ++ [first, second]) ++ more := by
    rw [hrest, List.append_assoc]
    rfl
  have hnone : tree.nodeAt? (above ++ [first, second]) = none := by
    rw [List.append_cons, Dir.nodeAt?_append_of_dirAt? (Dir.dirAt?_branch hdir hlast)]
    rfl
  have hkept : (root.nodeAt? (above ++ [first, second])).map Node.bare = none := by
    refine (bare_nodeAt?_grow hask (fun p hp => ?_) (fun p hp hpath => ?_) h).trans
      (congrArg (Option.map Node.bare) hnone)
    · rcases mem_stacked_iff.1 hp with ⟨name, k, hmem, rfl⟩ | hp
      · rintro next after hpath
        rw [List.append_assoc, List.append_cancel_left_eq] at hpath
        cases hpath
        exact hunlisted k hmem
      · exact .of_append (hsplit ▸ hdue.spares p hp)
    · -- Nothing that is pending lies so far down.
      have hlength := hpath.length_le
      rw [List.length_append, List.length_cons] at hlength
      rcases mem_stacked_iff.1 hp with ⟨name, k, _, rfl⟩ | hp
      · rw [List.length_append, List.length_singleton] at hlength
        simp at hlength
      · have hhigher := hdue.higher p hp
        omega
  rw [hsplit, Dir.nodeAt?_append, Option.map_eq_none_iff.1 hkept, Option.bind_none]

/-- If in the end something stands below a name, the last entry of the name is a branch, and there
    is a first branch of the name that has the next name in its level. -/
theorem exists_branch_of_nodeAt? (hclosed : Sprout.Closed sprouts)
    (hfirst : first ∈ sprouts.map Sprout.name) {second : String} {more : List String}
    (hrest : rest = second :: more) {node : Node}
    (hnode : (root.nodeAt? (above ++ first :: rest)).map Node.bare = some node) :
    ∃ key front next behind below, (Sprout.branch first key).Outlasts sprouts ∧
      sprouts = front ++ .branch first next :: behind ∧ level next = .ok below ∧
      second ∈ below.map Sprout.name ∧ ∀ other, .branch first other ∈ front →
        ∀ sprouts, level other = .ok sprouts → second ∉ sprouts.map Sprout.name := by
  obtain ⟨sprout, hlast, hname⟩ := Sprout.exists_outlasts hfirst
  have hbare := bare_nodeAt?_of_outlasts hask hdir hdue h hlast hname
  rcases Option.map_eq_some_iff.1 hnode with ⟨there, hthere, _⟩
  rw [List.append_cons] at hthere
  rcases Dir.exists_dirAt?_of_nodeAt?_append (hrest ▸ List.cons_ne_nil _ _) hthere with
    ⟨child, hchild, _⟩
  rw [Dir.dirAt?_eq_some_iff_nodeAt?.1 hchild, Option.map_some, Option.some.injEq] at hbare
  rcases Sprout.exists_branch hclosed hlast.mem hbare.symm with ⟨key, hbranch⟩
  rw [hname] at hbranch
  subst hbranch
  rcases Sprout.exists_first_branch level sprouts first second with
    hunlisted | ⟨front, next, behind, below, hfront⟩
  · rw [nodeAt?_of_unlisted hask hdir hdue h hlast hrest hunlisted] at hnode
    cases hnode
  · exact ⟨key, front, next, behind, below, hlast, hfront⟩

end Planted

/-- Let `key` be due for a path, with a level that has the next name of it. Then the tree has at the
    path what stays there from `key`, and nothing else. -/
theorem bare_nodeAt?_grow_due
    (hclosed : ∀ key sprouts, level key = .ok sprouts → Sprout.Closed sprouts) {asked : List κ}
    {before after : List (κ × List String)} {key : κ} {above : List String} {first : String}
    {rest : List String} (hdue : Due level (above ++ first :: rest) above before after)
    {tree here : Dir} (hplace : tree.dirAt? above = some here)
    (hfirst : ∀ sprouts, level key = .ok sprouts → first ∈ sprouts.map Sprout.name) {s : σ}
    (h : GrowsTo ask (before ++ (key, above) :: after) tree s asked (.ok root) last)
    (node : Node) : (root.nodeAt? (above ++ first :: rest)).map Node.bare = some node ↔
      ∃ k sprout, Stays level key (first :: rest) k sprout ∧ sprout.node.bare = node := by
  induction asked generalizing before after key above first rest tree here s with
  | nil => cases before <;> cases h
  | cons head asked ih =>
  cases before with
  | cons p before =>
      rcases p with ⟨other, segments⟩
      obtain ⟨_, next, sprouts, hasked, -, ⟨-, hgrow⟩ | ⟨-, hgrow⟩⟩ := GrowsTo.step hask h
      all_goals obtain ⟨rfl, rfl⟩ := List.cons.inj hasked
      · -- Planted further down or beside it, the level leaves the directory there.
        rcases Dir.exists_dirAt?_update_of_length_le (Dir.plant sprouts) hplace
          (hdue.deeper _ List.mem_cons_self) with ⟨here', hhere'⟩
        have hpushed := stacked_append segments sprouts before ((key, above) :: after)
        exact ih hdue.pushed hhere' hfirst (hpushed ▸ hgrow)
      · exact ih hdue.tail hplace hfirst hgrow
  | nil =>
      obtain ⟨_, next, sprouts, hasked, answer, ⟨harrived, hgrow⟩ | ⟨hrefused, -⟩⟩ :=
        GrowsTo.step hask h
      all_goals obtain ⟨rfl, rfl⟩ := List.cons.inj hasked
      · have hdir := Dir.dirAt?_update_self harrived
        rw [Dir.openedAt_of_dirAt? hplace] at hdir
        cases rest with
        | nil =>
            constructor
            · intro hnode
              obtain ⟨sprout, hlast, rfl⟩ := Sprout.exists_outlasts (hfirst _ answer)
              rw [bare_nodeAt?_of_outlasts hask hdir hdue hgrow hlast rfl] at hnode
              exact ⟨key, sprout, .here answer hlast, Option.some.inj hnode⟩
            · rintro ⟨k, sprout, hstays, rfl⟩
              cases hstays with
              | here answer' hlast =>
                  cases answer.symm.trans answer'
                  exact bare_nodeAt?_of_outlasts hask hdir hdue hgrow hlast rfl
        | cons second more =>
            -- One name further, the first branch whose level has the next name is due.
            have hfurther {front behind : List (Sprout κ)} {next' last' : κ}
                (hsprouts : sprouts = front ++ .branch first next' :: behind)
                (hstands : (Sprout.branch first last').Outlasts sprouts)
                (hunwritten : ∀ other, .branch first other ∈ front → ∀ sprouts,
                  level other = .ok sprouts → second ∉ sprouts.map Sprout.name)
                (hsecond : ∀ sprouts, level next' = .ok sprouts →
                  second ∈ sprouts.map Sprout.name) :
                (root.nodeAt? (above ++ first :: second :: more)).map Node.bare = some node ↔
                  ∃ k sprout, Stays level next' (second :: more) k sprout ∧
                    sprout.node.bare = node := by
              rw [hsprouts, stacked_append_branch, ← hsprouts] at hgrow
              rw [List.append_cons above first]
              exact ih (hdue.branch hunwritten behind)
                (Dir.dirAt?_branch hdir hstands) hsecond hgrow
            constructor
            · intro hnode
              obtain ⟨last', front, next', behind, below, hstands, hsprouts, answer', hmem,
                  hunwritten⟩ := exists_branch_of_nodeAt? hask hdir hdue hgrow
                (hclosed key _ answer) (hfirst _ answer) rfl hnode
              have hsecond : ∀ sprouts, level next' = .ok sprouts →
                  second ∈ sprouts.map Sprout.name := by
                intro sprouts hlevel
                cases answer'.symm.trans hlevel
                exact hmem
              rcases (hfurther hsprouts hstands hunwritten hsecond).1 hnode with
                ⟨k, sprout, hstays, hsprout⟩
              subst hsprouts
              exact ⟨k, sprout, .further answer hstands hunwritten hstays, hsprout⟩
            · rintro ⟨k, sprout, hstays, rfl⟩
              cases hstays with
              | further answer' hstands hunwritten honward =>
                  cases answer.symm.trans answer'
                  refine (hfurther rfl hstands hunwritten fun below hbelow => ?_).2
                    ⟨k, sprout, honward, rfl⟩
                  rcases honward.head_mem rfl with ⟨below', hbelow', hmem⟩
                  cases hbelow.symm.trans hbelow'
                  exact hmem
      · rw [Dir.update_eq_replaceAt hplace] at hrefused
        cases hrefused

/-- The tree that a build comes to has at each path what stays there, and nothing else. -/
theorem bare_nodeAt?_grow_iff
    (hclosed : ∀ key sprouts, level key = .ok sprouts → Sprout.Closed sprouts) {asked : List κ}
    {key : κ} {s : σ} (h : GrowsTo ask [(key, [])] .empty s asked (.ok root) last)
    {path : List String} (hne : path ≠ []) (node : Node) :
    (root.nodeAt? path).map Node.bare = some node ↔
      ∃ k sprout, Stays level key path k sprout ∧ sprout.node.bare = node := by
  obtain ⟨first, rest, rfl⟩ := List.exists_cons_of_ne_nil hne
  obtain ⟨_, _, sprouts, _, answer, _⟩ := h.step hask
  by_cases hfirst : first ∈ sprouts.map Sprout.name
  · have hdue : Due level ([] ++ first :: rest) [] [] [] := by
      constructor <;> exact fun p hp => absurd hp List.not_mem_nil
    refine bare_nodeAt?_grow_due hask hclosed hdue (Dir.dirAt?_nil .empty) ?_ h node
    intro sprouts' answer'
    cases answer.symm.trans answer'
    exact hfirst
  · -- The first level does not have the name, so no level writes there.
    have hspares : ∀ p ∈ [(key, ([] : List String))], Spares level (first :: rest) p := by
      intro p hp
      obtain rfl := List.mem_singleton.1 hp
      rintro name more hpath sprouts' answer'
      cases answer.symm.trans answer'
      cases hpath
      exact hfirst
    have hnone := bare_nodeAt?_grow hask hspares (fun p hp hpath => ?_) h
    · constructor
      · intro hnode
        rw [hnone] at hnode
        cases hnode
      · rintro ⟨k, sprout, hstays, _⟩
        rcases hstays.head_mem rfl with ⟨sprouts', answer', hmem⟩
        cases answer.symm.trans answer'
        exact absurd hmem hfirst
    · obtain rfl := List.mem_singleton.1 hp
      cases List.prefix_nil.1 hpath

/-- What a loop has asked for, key by key and each for its place, and all of it was answered. What
    holds of the pending keys and goes down from a key asked for to the branches in its level holds
    of all keys asked for. -/
theorem exists_asked {asked : List κ} {pending : List (κ × List String)} {tree : Dir} {s : σ}
    (h : GrowsTo ask pending tree s asked (.ok root) last) :
    ∃ placed : List (κ × List String), placed.map Prod.fst = asked ∧
      (∀ p ∈ placed, ∃ sprouts, level p.1 = .ok sprouts) ∧
      ∀ P : κ → List String → Prop, (∀ p ∈ pending, P p.1 p.2) →
        (∀ p ∈ placed, P p.1 p.2 → ∀ sprouts, level p.1 = .ok sprouts →
          ∀ name next, .branch name next ∈ sprouts → P next (p.2 ++ [name])) →
        ∀ p ∈ placed, P p.1 p.2 := by
  induction asked generalizing pending tree s with
  | nil =>
      exact ⟨[], rfl, fun p hp => absurd hp List.not_mem_nil,
        fun _ _ _ p hp => absurd hp List.not_mem_nil⟩
  | cons first asked ih =>
      obtain ⟨⟨key, segments⟩, pending, rfl⟩ := h.exists_pending
      obtain ⟨later, next, sprouts, hasked, answer, hgrow⟩ := h.step hask
      obtain ⟨rfl, rfl⟩ := List.cons.inj hasked
      -- Whether the level was planted or not, all that is pending now was so or is a branch of it.
      obtain ⟨now, tree, hnow, hgrow⟩ : ∃ now tree,
          (∀ p ∈ now, p ∈ stacked segments sprouts pending) ∧
          GrowsTo ask now tree next later (.ok root) last := by
        rcases hgrow with ⟨-, hgrow⟩ | ⟨-, hgrow⟩
        · exact ⟨_, _, fun p hp => hp, hgrow⟩
        · exact ⟨_, _, fun p hp => mem_stacked_iff.2 (.inr hp), hgrow⟩
      obtain ⟨placed, rfl, hok, hdown⟩ := ih hgrow
      refine ⟨(key, segments) :: placed, rfl,
        List.forall_mem_cons.2 ⟨⟨sprouts, answer⟩, hok⟩, fun P hP hstep => ?_⟩
      rw [List.forall_mem_cons] at hP hstep ⊢
      refine ⟨hP.1, hdown P (fun p hp => ?_) hstep.2⟩
      rcases mem_stacked_iff.1 (hnow p hp) with ⟨name, k, hmem, rfl⟩ | hp
      · exact hstep.1 hP.1 sprouts answer name k hmem
      · exact hP.2 p hp

/-- If no level that was asked for has a name twice, each of its entries stays behind the names of
    its place. -/
theorem exists_asked_stays {asked : List κ} {key : κ} {s : σ}
    (h : GrowsTo ask [(key, [])] .empty s asked (.ok root) last) :
    ∃ placed : List (κ × List String), placed.map Prod.fst = asked ∧
      (∀ p ∈ placed, Leads level key p.2 p.1 ∧ ∃ sprouts, level p.1 = .ok sprouts) ∧
      ((∀ p ∈ placed, ∀ sprouts, level p.1 = .ok sprouts → (sprouts.map Sprout.name).Nodup) →
        ∀ p ∈ placed, ∀ sprouts, level p.1 = .ok sprouts → ∀ sprout ∈ sprouts,
          Stays level key (p.2 ++ [sprout.name]) p.1 sprout) := by
  obtain ⟨placed, hplaced, hok, hdown⟩ := exists_asked hask h
  refine ⟨placed, hplaced, fun p hp => ⟨?_, hok p hp⟩, fun hnodup p hp sprouts answer sprout hmem =>
    ?_⟩
  · refine hdown (fun k segments => Leads level key segments k) ?_ ?_ p hp
    · exact List.forall_mem_singleton.2 .here
    · intro q _ hleads sprouts answer name next hmem
      exact hleads.append (.step answer hmem .here)
  · have hlift := hdown (fun k segments => ∀ path k' sprout, Stays level k path k' sprout →
      Stays level key (segments ++ path) k' sprout) ?_ ?_ p hp
    · exact hlift _ _ _ (.here answer (Sprout.outlasts_of_nodup (hnodup p hp sprouts answer) hmem))
    · exact List.forall_mem_singleton.2 fun path k' sprout hstays => hstays
    · intro q hq hlift sprouts answer name next hmem path k' sprout hstays
      have hbranch := hstays.branch answer (hnodup q hq sprouts answer) hmem
      rw [List.append_assoc]
      exact hlift _ _ _ hbranch

end Loop

end TreeShell
