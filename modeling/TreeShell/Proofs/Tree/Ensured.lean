import TreeShell.Proofs.Tree.Replaced

/-!
# Making Sure of a Directory

A walk creates what is missing on its way and may be stopped on the same way, so it has to be shown
that it never does both. What stops a walk stood in the tree before: the first name under which
nothing stands begins an empty directory, and there is nothing in it to stop at. Hence the tree
after a refusal is the tree before it, and after an arrival it has grown by the directories on the
way and by nothing else.

To say what a tree holds at a path, `nodeAt?` goes from entry to entry and through nothing but
readable directories. Unlike looking a path up, it gives no answer below a denied directory: a
denial is not what stands there. Where several entries have one name it goes by the first, as the
walk does. So nothing here asks for distinct names.

A walk is seen through one inversion lemma, `update_cons_cases`: at a name it is stopped, or it goes
on in a directory that stands there or is made for it.

## Main definitions

* `Node.nodeAt?`, `Dir.nodeAt?`: The node at a path, through readable directories.
* `Node.bare`: The kind and access of a node, without what a directory holds.
* `Node.Stops`: A node at which a walk cannot go on.
* `Dir.Opens`, `Dir.openedAt`: The directory in which a walk goes on, and the one it comes to.

## Theorems

* `Dir.update_cons_cases`: What a walk does at the first name.
* `Dir.update_refused`, `Dir.update_eq_false_iff`: A walk that is stopped has changed nothing, and
  what stops it.
* `Dir.update_update`: Of two walks to one directory the second finds it.
* `Dir.dirAt?_update_self`, `Dir.dirAt?_update_above`, `Dir.nodeAt?_update_beside`: The tree after a
  walk: at its end, on its way, and anywhere else.
* `Dir.bare_nodeAt?_update`: What a walk leaves as it was.
* `Dir.ensure_all_or_nothing`: All of this for a walk that only makes sure of a directory.
-/

namespace TreeShell

/-- The node that `segments` lead to from a node, through readable directories only. -/
def Node.nodeAt? : List String → Node → Option Node
  | [], node => some node
  | name :: rest, .dir entries => (entries.find? name).bind (Node.nodeAt? rest)
  | _ :: _, .denied => none
  | _ :: _, .file _ => none

/-- The node that `segments` lead to from the root of a tree, through readable directories only. -/
def Dir.nodeAt? (segments : List String) (root : Dir) : Option Node :=
  (Node.dir root).nodeAt? segments

/-- A node without what it holds: its kind, and its access. -/
def Node.bare : Node → Node
  | .dir _ => .dir .empty
  | .denied => .denied
  | .file readable => .file readable

/-- A walk cannot go on at a denied directory or a file. -/
def Node.Stops (node : Node) : Prop := node = .denied ∨ ∃ mark, node = .file mark

@[simp] theorem Node.nodeAt?_nil (node : Node) : node.nodeAt? [] = some node := by
  cases node <;> rfl

@[simp] theorem Node.bare_dir (entries : Dir) : (Node.dir entries).bare = .dir .empty := rfl

theorem Node.bare_eq_dir_iff {node : Node} : node.bare = .dir .empty ↔ ∃ d, node = .dir d := by
  cases node <;> simp [bare]

theorem Node.not_stops_dir (entries : Dir) : ¬(Node.dir entries).Stops := by
  rintro (h | ⟨_, h⟩) <;> cases h

/-- Every node is a readable directory, or stops a walk. -/
theorem Node.dir_or_stops (node : Node) : (∃ entries, node = .dir entries) ∨ node.Stops := by
  cases node with
  | dir entries => exact .inl ⟨entries, rfl⟩
  | denied => exact .inr (.inl rfl)
  | file mark => exact .inr (.inr ⟨mark, rfl⟩)

/-- Below a node that stops a walk there is nothing. -/
theorem Node.Stops.nodeAt? {node : Node} (h : node.Stops) {rest : List String} (hne : rest ≠ []) :
    node.nodeAt? rest = none := by
  obtain ⟨name, more, rfl⟩ := List.exists_cons_of_ne_nil hne
  rcases h with rfl | ⟨mark, rfl⟩
  · rfl
  · rfl

theorem Node.nodeAt?_append (first rest : List String) (node : Node) :
    node.nodeAt? (first ++ rest) = (node.nodeAt? first).bind (Node.nodeAt? rest) := by
  induction first generalizing node with
  | nil => simp
  | cons name more ih =>
      cases node with
      | dir entries =>
          rw [List.cons_append, nodeAt?, nodeAt?, Option.bind_assoc]
          exact congrArg _ (funext ih)
      | denied => rfl
      | file => rfl

namespace Dir

variable {root : Dir} {segments : List String}

/-- Writing what is found there changes nothing. -/
theorem insert_find?_self {name : String} {node : Node} {d : Dir} (h : d.find? name = some node) :
    d.insert name node = d := by
  induction d using Dir.rec (motive_1 := fun _ => True) with
  | empty => cases h
  | entry n old rest _ ih =>
      rw [find?] at h
      rw [insert]
      split at h
      · rename_i hn
        rw [if_pos hn, Option.some.inj h]
      · rename_i hn
        rw [if_neg hn, ih h]
  | _ => trivial

@[simp] theorem nodeAt?_nil (root : Dir) : root.nodeAt? [] = some (.dir root) :=
  Node.nodeAt?_nil _

theorem nodeAt?_cons (name : String) (rest : List String) (root : Dir) :
    root.nodeAt? (name :: rest) = (root.find? name).bind (Node.nodeAt? rest) := rfl

theorem nodeAt?_append (first rest : List String) (root : Dir) :
    root.nodeAt? (first ++ rest) = (root.nodeAt? first).bind (Node.nodeAt? rest) :=
  Node.nodeAt?_append first rest _

/-- The readable directory at a path is the node there. -/
theorem dirAt?_eq_some_iff_nodeAt? {entries : Dir} :
    root.dirAt? segments = some entries ↔ root.nodeAt? segments = some (.dir entries) := by
  induction segments generalizing root with
  | nil => simp
  | cons name rest ih =>
      rw [dirAt?_cons_eq_some_iff, nodeAt?_cons, Option.bind_eq_some_iff]
      constructor
      · rintro ⟨child, hfind, hchild⟩
        exact ⟨.dir child, hfind, ih.1 hchild⟩
      · rintro ⟨node, hfind, hnode⟩
        rcases node.dir_or_stops with ⟨child, rfl⟩ | hstops
        · exact ⟨child, hfind, ih.2 hnode⟩
        · -- Only the node itself could be what is found from it, and it is no directory.
          cases rest with
          | nil =>
              rw [Node.nodeAt?_nil, Option.some.injEq] at hnode
              exact absurd hstops (hnode ▸ Node.not_stops_dir entries)
          | cons =>
              rw [hstops.nodeAt? (List.cons_ne_nil _ _)] at hnode
              cases hnode

/-- What stands below a readable directory is what it holds. -/
theorem nodeAt?_append_of_dirAt? {here : Dir} (h : root.dirAt? segments = some here)
    (rest : List String) : root.nodeAt? (segments ++ rest) = here.nodeAt? rest := by
  rw [nodeAt?_append, dirAt?_eq_some_iff_nodeAt?.1 h, Option.bind_some]
  rfl

/-- Whatever stands below a path stands in a readable directory. -/
theorem exists_dirAt?_of_nodeAt?_append {rest : List String} {node : Node} (hne : rest ≠ [])
    (h : root.nodeAt? (segments ++ rest) = some node) :
    ∃ here, root.dirAt? segments = some here ∧ here.nodeAt? rest = some node := by
  rw [nodeAt?_append, Option.bind_eq_some_iff] at h
  obtain ⟨middle, hmiddle, hrest⟩ := h
  rcases middle.dir_or_stops with ⟨here, rfl⟩ | hstops
  · exact ⟨here, dirAt?_eq_some_iff_nodeAt?.2 hmiddle, hrest⟩
  · rw [hstops.nodeAt? hne] at hrest
    cases hrest

/-- A file is found at a path exactly if it is the node there. -/
theorem follow_eq_file_iff {mark : Bool} :
    root.follow segments = some (.file mark) ↔ root.nodeAt? segments = some (.file mark) := by
  induction segments generalizing root with
  | nil => simp [follow]
  | cons name rest ih =>
      rw [follow_cons, nodeAt?_cons]
      cases hfind : root.find? name with
      | none => simp
      | some node =>
          cases node with
          | dir entries => exact ih
          | denied => cases rest <;> simp [Node.follow, Node.nodeAt?]
          | file => cases rest <;> simp [Node.follow, Node.nodeAt?]

/-- At `name` a walk goes on in `below`: the directory that stands there, or a new one. -/
def Opens (root : Dir) (name : String) (below : Dir) : Prop :=
  root.find? name = some (.dir below) ∨ root.find? name = none ∧ below = .empty

/-- The directory that a walk comes to: the one that stands there, or a new one. -/
def openedAt (root : Dir) (segments : List String) : Dir := (root.dirAt? segments).getD .empty

theorem openedAt_of_dirAt? {here : Dir} (h : root.dirAt? segments = some here) :
    root.openedAt segments = here := by
  rw [openedAt, h, Option.getD_some]

@[simp] theorem openedAt_nil (root : Dir) : root.openedAt [] = root :=
  openedAt_of_dirAt? (dirAt?_nil root)

section Opens

variable {name : String} {below : Dir} (h : root.Opens name below) {rest : List String}

include h

/-- What stands further on stands in the directory that is opened. -/
theorem Opens.nodeAt?_cons (hne : rest ≠ []) :
    root.nodeAt? (name :: rest) = below.nodeAt? rest := by
  rcases h with hfind | ⟨hfind, rfl⟩
  · rw [Dir.nodeAt?_cons, hfind]
    rfl
  · obtain ⟨first, more, rfl⟩ := List.exists_cons_of_ne_nil hne
    rw [Dir.nodeAt?_cons, hfind]
    rfl

theorem Opens.openedAt_cons : root.openedAt (name :: rest) = below.openedAt rest := by
  by_cases hne : rest = []
  · subst hne
    rw [openedAt_nil]
    rcases h with hfind | ⟨hfind, rfl⟩
    · exact openedAt_of_dirAt? (dirAt?_cons_eq_some_iff.2 ⟨below, hfind, dirAt?_nil below⟩)
    · rw [openedAt, dirAt?, follow_cons, hfind]
      rfl
  · have hdir : root.dirAt? (name :: rest) = below.dirAt? rest := Option.ext fun entries => by
      rw [dirAt?_eq_some_iff_nodeAt?, dirAt?_eq_some_iff_nodeAt?, h.nodeAt?_cons hne]
    rw [openedAt, openedAt, hdir]

end Opens

/-- What a walk does at its first name: it is stopped, or it goes on in a directory. -/
theorem update_cons_cases (change : Dir → Dir) (name : String) (rest : List String) (root : Dir) :
    (∃ node, root.find? name = some node ∧ node.Stops ∧
      root.update change (name :: rest) = (root, false)) ∨
    ∃ below, root.Opens name below ∧ root.update change (name :: rest) =
      (root.insert name (.dir (below.update change rest).1), (below.update change rest).2) := by
  rw [update]
  cases hfind : root.find? name with
  | none => exact .inr ⟨.empty, .inr ⟨hfind, rfl⟩, rfl⟩
  | some node =>
      cases node with
      | dir below => exact .inr ⟨below, .inl hfind, rfl⟩
      | denied => exact .inl ⟨.denied, rfl, .inl rfl, rfl⟩
      | file mark => exact .inl ⟨.file mark, rfl, .inr ⟨mark, rfl⟩, rfl⟩

/-- A walk that is stopped has changed nothing. -/
theorem update_refused {change : Dir → Dir} (h : (root.update change segments).2 = false) :
    root.update change segments = (root, false) := by
  induction segments generalizing root with
  | nil => cases h
  | cons name rest ih =>
      rcases update_cons_cases change name rest root with
        ⟨_, _, _, hstopped⟩ | ⟨below, hopens, hgoes⟩
      · exact hstopped
      · rw [hgoes] at h ⊢
        rcases hopens with hfind | ⟨_, rfl⟩
        · rw [ih h, insert_find?_self hfind]
        · -- In a new directory nothing could have stopped it.
          rw [update_empty] at h
          cases h

/-- A second walk to the same place finds what the first one has left there. -/
theorem update_update (first second : Dir → Dir) (segments : List String) (root : Dir) :
    (root.update first segments).1.update second segments =
      root.update (second ∘ first) segments := by
  induction segments generalizing root with
  | nil => rfl
  | cons name rest ih =>
      cases hfind : root.find? name with
      | none => simp only [update, hfind, find?_insert_self, insert_insert, ← ih]
      | some node =>
          cases node with
          | dir below => simp only [update, hfind, find?_insert_self, insert_insert, ← ih]
          | denied => simp only [update, hfind]
          | file mark => simp only [update, hfind]

/-- A walk is stopped exactly if a denied directory or a file stands on the way or at its end. -/
theorem update_eq_false_iff (change : Dir → Dir) :
    (root.update change segments).2 = false ↔ ∃ above, above ≠ [] ∧ above <+: segments ∧
      ∃ node, root.nodeAt? above = some node ∧ node.Stops := by
  induction segments generalizing root with
  | nil =>
      constructor
      · intro h
        cases h
      · rintro ⟨above, hne, habove, _⟩
        exact absurd (List.prefix_nil.1 habove) hne
  | cons name rest ih =>
      rcases update_cons_cases change name rest root with
        ⟨node, hfind, hstops, hstopped⟩ | ⟨below, hopens, hgoes⟩
      · rw [hstopped]
        refine ⟨fun _ => ⟨[name], List.cons_ne_nil _ _, ⟨rest, rfl⟩, node, ?_, hstops⟩,
          fun _ => rfl⟩
        rw [nodeAt?_cons, hfind, Option.bind_some, Node.nodeAt?_nil]
      · rw [hgoes, ih]
        constructor
        · rintro ⟨above, hne, habove, node, hnode, hstops⟩
          exact ⟨name :: above, List.cons_ne_nil _ _, List.cons_prefix_cons.2 ⟨rfl, habove⟩, node,
            (hopens.nodeAt?_cons hne).trans hnode, hstops⟩
        · rintro ⟨above, hne, habove, node, hnode, hstops⟩
          obtain ⟨first, more, rfl⟩ := List.exists_cons_of_ne_nil hne
          obtain ⟨rfl, hmore⟩ := List.cons_prefix_cons.1 habove
          -- It is not the directory that was opened, so it stands further on.
          have hmore_ne : more ≠ [] := by
            rintro rfl
            rw [nodeAt?_cons] at hnode
            rcases hopens with hfind | ⟨hfind, _⟩
            · rw [hfind, Option.bind_some, Node.nodeAt?_nil, Option.some.injEq] at hnode
              exact Node.not_stops_dir below (hnode ▸ hstops)
            · rw [hfind] at hnode
              cases hnode
          rw [hopens.nodeAt?_cons hmore_ne] at hnode
          exact ⟨more, hmore_ne, hmore, node, hnode, hstops⟩

/-- What is not at the end of a walk, below it or on the way to it stays. -/
theorem nodeAt?_update_beside (change : Dir → Dir) {path : List String} (h : ¬segments <+: path)
    (h' : ¬path <+: segments) :
    (root.update change segments).1.nodeAt? path = root.nodeAt? path := by
  induction segments generalizing root path with
  | nil => exact absurd List.nil_prefix h
  | cons name rest ih =>
      cases path with
      | nil => exact absurd List.nil_prefix h'
      | cons first more =>
          rcases update_cons_cases change name rest root with
            ⟨_, _, _, hstopped⟩ | ⟨below, hopens, hgoes⟩
          · rw [hstopped]
          · by_cases hsame : first = name
            · -- The walk goes the same way, but not all of it.
              subst hsame
              have hmore : more ≠ [] := fun hnil => h' (hnil ▸ ⟨rest, rfl⟩)
              have hbeside : (below.update change rest).1.nodeAt? more = below.nodeAt? more :=
                ih (fun hp => h (List.cons_prefix_cons.2 ⟨rfl, hp⟩))
                  fun hp => h' (List.cons_prefix_cons.2 ⟨rfl, hp⟩)
              rw [hgoes, nodeAt?_cons, find?_insert_self, Option.bind_some,
                hopens.nodeAt?_cons hmore]
              exact hbeside
            · rw [hgoes, nodeAt?_cons, nodeAt?_cons, find?_insert_of_ne hsame]

section Arrived

variable {change : Dir → Dir} (h : (root.update change segments).2 = true)

include h

/-- Nothing stops a walk that arrives. -/
theorem dir_of_arrived {above : List String} (habove : above <+: segments) {node : Node}
    (hnode : root.nodeAt? above = some node) : ∃ entries, node = .dir entries := by
  rcases node.dir_or_stops with hdir | hstops
  · exact hdir
  · by_cases hne : above = []
    · rw [hne, nodeAt?_nil, Option.some.injEq] at hnode
      exact ⟨root, hnode.symm⟩
    · have hrefused := (update_eq_false_iff change).2 ⟨above, hne, habove, node, hnode, hstops⟩
      rw [h] at hrefused
      cases hrefused

/-- At its end it has changed the directory there, or a new one. -/
theorem dirAt?_update_self :
    (root.update change segments).1.dirAt? segments = some (change (root.openedAt segments)) := by
  induction segments generalizing root with
  | nil => rw [openedAt_nil, update, dirAt?_nil]
  | cons name rest ih =>
      rcases update_cons_cases change name rest root with
        ⟨_, _, _, hstopped⟩ | ⟨below, hopens, hgoes⟩
      · rw [hstopped] at h
        cases h
      · rw [hgoes] at h ⊢
        rw [hopens.openedAt_cons]
        exact dirAt?_cons_eq_some_iff.2 ⟨_, find?_insert_self name _ root, ih h⟩

/-- On its way it has written the next name into each directory. -/
theorem dirAt?_update_above {above rest : List String} {name : String}
    (hsegments : above ++ name :: rest = segments) : ∃ below,
      (root.update change segments).1.dirAt? above =
        some ((root.openedAt above).insert name (.dir below)) := by
  induction above generalizing root segments with
  | nil =>
      subst hsegments
      rcases update_cons_cases change name rest root with
        ⟨_, _, _, hstopped⟩ | ⟨below, _, hgoes⟩
      · rw [List.nil_append, hstopped] at h
        cases h
      · rw [List.nil_append, hgoes, openedAt_nil, dirAt?_nil]
        exact ⟨_, rfl⟩
  | cons first above ih =>
      subst hsegments
      rcases update_cons_cases change first (above ++ name :: rest) root with
        ⟨_, _, _, hstopped⟩ | ⟨below, hopens, hgoes⟩
      · rw [List.cons_append, hstopped] at h
        cases h
      · rw [List.cons_append, hgoes] at h ⊢
        rw [hopens.openedAt_cons]
        rcases ih h rfl with ⟨inner, hinner⟩
        exact ⟨inner, dirAt?_cons_eq_some_iff.2 ⟨_, find?_insert_self first _ root, hinner⟩⟩

/-- So there is a readable directory at every name of the way. -/
theorem exists_dirAt?_update {above : List String} (habove : above <+: segments) :
    ∃ entries, (root.update change segments).1.dirAt? above = some entries := by
  obtain ⟨rest, hsegments⟩ := habove
  cases rest with
  | nil =>
      rw [List.append_nil] at hsegments
      subst hsegments
      exact ⟨_, dirAt?_update_self h⟩
  | cons name rest =>
      rcases dirAt?_update_above h hsegments with ⟨below, hbelow⟩
      exact ⟨_, hbelow⟩

end Arrived

/-- A walk leaves the kind and the access of everything that is not below its end. -/
theorem bare_nodeAt?_update (change : Dir → Dir) {path : List String}
    (h : segments <+: path → segments = path) {node : Node}
    (hnode : root.nodeAt? path = some node) :
    ((root.update change segments).1.nodeAt? path).map Node.bare = some node.bare := by
  cases harrived : (root.update change segments).2 with
  | false => rw [update_refused harrived, hnode, Option.map_some]
  | true =>
      by_cases habove : path <+: segments
      · rcases dir_of_arrived harrived habove hnode with ⟨old, rfl⟩
        rcases exists_dirAt?_update harrived habove with ⟨new, hnew⟩
        rw [dirAt?_eq_some_iff_nodeAt?.1 hnew, Option.map_some]
        rfl
      · have hbelow : ¬segments <+: path := fun hp => habove (h hp ▸ List.prefix_refl _)
        rw [nodeAt?_update_beside change hbelow habove, hnode, Option.map_some]

section Ensured

variable (h : (root.ensure segments).2 = true)

include h

/-- What stood below the end of the walk stands there still. -/
theorem nodeAt?_ensure_below (rest : List String) :
    (root.ensure segments).1.nodeAt? (segments ++ rest) = (root.openedAt segments).nodeAt? rest :=
  nodeAt?_append_of_dirAt? (dirAt?_update_self h) rest

/-- What stood somewhere stands there still, with the same kind and access. -/
theorem bare_nodeAt?_ensure {path : List String} {node : Node}
    (hnode : root.nodeAt? path = some node) :
    ((root.ensure segments).1.nodeAt? path).map Node.bare = some node.bare := by
  by_cases hbelow : segments <+: path
  · obtain ⟨rest, rfl⟩ := hbelow
    rw [nodeAt?_ensure_below h]
    cases rest with
    | nil =>
        rw [List.append_nil] at hnode
        rcases dir_of_arrived h (List.prefix_refl _) hnode with ⟨here, rfl⟩
        rw [nodeAt?_nil, Option.map_some]
        rfl
    | cons name rest =>
        rcases exists_dirAt?_of_nodeAt?_append (List.cons_ne_nil _ _) hnode with
          ⟨here, hhere, hrest⟩
        rw [openedAt_of_dirAt? hhere, hrest, Option.map_some]
  · exact bare_nodeAt?_update id (fun hp => absurd hp hbelow) hnode

/-- Whatever stands where nothing stood is a readable directory on the way. -/
theorem new_of_ensure {path : List String} (hnone : root.nodeAt? path = none) {node : Node}
    (hnode : (root.ensure segments).1.nodeAt? path = some node) :
    path <+: segments ∧ ∃ entries, node = .dir entries := by
  have hway : path <+: segments := by
    by_cases hbelow : segments <+: path
    · obtain ⟨rest, rfl⟩ := hbelow
      rw [nodeAt?_ensure_below h] at hnode
      cases hdir : root.dirAt? segments with
      | none =>
          -- The end of the walk is new, and holds nothing.
          rw [openedAt, hdir, Option.getD_none] at hnode
          cases rest with
          | nil => exact (List.append_nil segments).symm ▸ List.prefix_refl segments
          | cons => cases hnode
      | some here =>
          rw [nodeAt?_append_of_dirAt? hdir] at hnone
          rw [openedAt_of_dirAt? hdir, hnone] at hnode
          cases hnode
    · by_cases habove : path <+: segments
      · exact habove
      · have hsame : (root.update id segments).1.nodeAt? path = root.nodeAt? path :=
          nodeAt?_update_beside id hbelow habove
        rw [← ensure, hnode, hnone] at hsame
        cases hsame
  rcases exists_dirAt?_update h hway with ⟨entries, hentries⟩
  have hdir := dirAt?_eq_some_iff_nodeAt?.1 hentries
  rw [← ensure, hnode, Option.some.injEq] at hdir
  exact ⟨hway, entries, hdir⟩

/-- The names of a directory stay as they are, and a new one can only come after them. -/
theorem names_prefix_ensure {path : List String} {entries : Dir}
    (hentries : root.dirAt? path = some entries) :
    ∃ grown, (root.ensure segments).1.dirAt? path = some grown ∧ entries.names <+: grown.names := by
  by_cases habove : path <+: segments
  · obtain ⟨rest, hsegments⟩ := habove
    cases rest with
    | nil =>
        rw [List.append_nil] at hsegments
        subst hsegments
        rw [← openedAt_of_dirAt? hentries]
        exact ⟨_, dirAt?_update_self h, List.prefix_refl _⟩
    | cons name rest =>
        rcases dirAt?_update_above h hsegments with ⟨below, hbelow⟩
        refine ⟨_, hbelow, ?_⟩
        rw [openedAt_of_dirAt? hentries, names_insert]
        split
        · exact List.prefix_refl _
        · exact List.prefix_append _ _
  · refine ⟨entries, dirAt?_eq_some_iff_nodeAt?.2 ?_, List.prefix_refl _⟩
    have hnode := dirAt?_eq_some_iff_nodeAt?.1 hentries
    by_cases hbelow : segments <+: path
    · obtain ⟨rest, rfl⟩ := hbelow
      have hrest : rest ≠ [] := by
        rintro rfl
        exact habove ((List.append_nil segments).symm ▸ List.prefix_refl segments)
      rcases exists_dirAt?_of_nodeAt?_append hrest hnode with ⟨here, hhere, hin⟩
      rw [nodeAt?_ensure_below h, openedAt_of_dirAt? hhere, hin]
    · rw [ensure, nodeAt?_update_beside id hbelow habove, hnode]

end Ensured

/-- To make sure of a directory is all or nothing, in any tree and for any names. It is refused
    exactly if a denied directory or a file stands at one of the names, and then the tree is as it
    was. Otherwise the directory is there, and to change it is to change it in the tree that has
    grown. What stood in the tree stands there still, with its kind and access, and each directory
    has its names as before with new ones only after them; all that is new are the missing
    directories on the way. Doing it again changes nothing. -/
theorem ensure_all_or_nothing (root : Dir) (segments : List String) :
    let grown := (root.ensure segments).1
    ((root.ensure segments).2 = false ↔ ∃ above, above ≠ [] ∧ above <+: segments ∧
      (root.nodeAt? above = some .denied ∨ ∃ mark, root.nodeAt? above = some (.file mark))) ∧
    ((root.ensure segments).2 = false → grown = root) ∧
    ((root.ensure segments).2 = true →
      (∃ here, grown.dirAt? segments = some here ∧ ∀ change,
        root.update change segments = (grown.replaceAt segments (change here), true)) ∧
      (∀ path node, root.nodeAt? path = some node →
        (grown.nodeAt? path).map Node.bare = some node.bare) ∧
      (∀ path entries, root.dirAt? path = some entries →
        ∃ entries', grown.dirAt? path = some entries' ∧ entries.names <+: entries'.names) ∧
      (∀ path, root.nodeAt? path = none → ∀ node, grown.nodeAt? path = some node →
        path <+: segments ∧ ∃ entries, node = .dir entries) ∧
      ∀ above, above <+: segments → ∃ entries, grown.nodeAt? above = some (.dir entries)) ∧
    grown.ensure segments = (grown, (root.ensure segments).2) := by
  intro grown
  have hagain : grown.ensure segments = root.ensure segments :=
    update_update id id segments root
  refine ⟨?_, fun hrefused => ?_, fun harrived => ⟨?_,
    fun path node => bare_nodeAt?_ensure harrived,
    fun path entries => names_prefix_ensure harrived,
    fun path hnone node => new_of_ensure harrived hnone, fun above habove => ?_⟩, hagain⟩
  · rw [ensure, update_eq_false_iff]
    refine exists_congr fun above => and_congr_right fun _ => and_congr_right fun _ => ?_
    constructor
    · rintro ⟨node, hnode, rfl | ⟨mark, rfl⟩⟩
      · exact .inl hnode
      · exact .inr ⟨mark, hnode⟩
    · rintro (hnode | ⟨mark, hnode⟩)
      · exact ⟨_, hnode, .inl rfl⟩
      · exact ⟨_, hnode, .inr ⟨mark, rfl⟩⟩
  · exact congrArg Prod.fst (update_refused hrefused)
  · have hhere : (root.update id segments).1.dirAt? segments = some (root.openedAt segments) :=
      dirAt?_update_self harrived
    refine ⟨_, hhere, fun change => ?_⟩
    exact (update_update id change segments root).symm.trans (update_eq_replaceAt hhere change)
  · rcases exists_dirAt?_update harrived habove with ⟨entries, hentries⟩
    exact ⟨entries, dirAt?_eq_some_iff_nodeAt?.1 hentries⟩

end Dir

end TreeShell
