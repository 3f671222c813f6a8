import TreeShell.Proofs.Tree.Grown

/-!
# What a Successful Build Has Reached

That the loop does what the recursion says was shown from the recursion: where that ends, the loop
ends with the same. Here it is the loop that has ended, with a tree. Then the recursion has ended
too, since each of its calls is a stretch of the loop's run. So of a backend whose build succeeds
nothing more has to be known, and in particular not that its keys come to an end.

The induction is on the length of the run. Within one run it goes along the entries of a level, as
the recursion does, and only a branch that is asked for takes a request off it.

Once the recursion is there, everything that the names lead to can be found in its result. The
directory under a key has fewer keys asked for than the one above it, so no key leads back to
itself.

## Main definitions

* `DistinctFrom`, `DistinctBelow`: No level that the names lead to has a name twice.

## Theorems

* `unfoldsBy_of_growsTo`, `unfoldsFromBy_of_growsTo`: A loop that comes to a tree does what the
  recursion says.
* `UnfoldsBy.mem_of_leaf`, `UnfoldsBy.mem_of_branch`: The entries of a level are those of its
  directory.
* `UnfoldsFrom.dirAt?_of_leads`, `UnfoldsFrom.follow_of_leaf`: What is under a key, and what is in
  its level, stands where the names lead to it.
* `UnfoldsFrom.segments_eq_nil`: No key leads back to itself.
-/

namespace TreeShell

variable {κ σ : Type} {gives : κ → List (Sprout κ) → Prop}
  {level : κ → Except Fault (List (Sprout κ))} {ask : κ → Asking σ (List (Sprout κ))}

/-- No level that names lead to from `key` has a name twice. -/
def DistinctFrom (gives : κ → List (Sprout κ) → Prop) (key : κ) : Prop :=
  ∀ segments k, LeadsBy gives key segments k →
    ∀ below, gives k below → (below.map Sprout.name).Nodup

/-- No level that names lead to from `sprouts` has a name twice. -/
def DistinctBelow (gives : κ → List (Sprout κ) → Prop) (sprouts : List (Sprout κ)) : Prop :=
  ∀ segments k, LeadsBelow gives sprouts segments k →
    ∀ below, gives k below → (below.map Sprout.name).Nodup

namespace DistinctFrom

variable {key : κ} (h : DistinctFrom gives key) {sprouts : List (Sprout κ)}
  (answer : gives key sprouts)

include h answer

theorem here : (sprouts.map Sprout.name).Nodup := h [] key .here sprouts answer

theorem below : DistinctBelow gives sprouts := by
  rintro segments k ⟨name, first, rest, _, hfirst, hrest⟩
  exact h (name :: rest) k (.step answer hfirst hrest)

end DistinctFrom

namespace DistinctBelow

variable {sprout : Sprout κ} {later : List (Sprout κ)}

theorem tail (h : DistinctBelow gives (sprout :: later)) : DistinctBelow gives later :=
  fun segments k hleads => h segments k (hleads.cons sprout)

theorem branch {name : String} {key : κ} (h : DistinctBelow gives (.branch name key :: later)) :
    DistinctFrom gives key :=
  fun segments k hleads => h (name :: segments) k
    ⟨name, key, segments, rfl, List.mem_cons_self, hleads⟩

end DistinctBelow

section Loop

variable (hgives : ∀ key s below, (ask key s).1 = .ok below → gives key below) {root : Dir}
  {last : σ}

include hgives

/-- A step of a loop that comes to a tree fills a hole. -/
theorem GrowsTo.fill {key : κ} {segments : List String} {pending : List (κ × List String)}
    {tree : Dir} (hhole : tree.dirAt? segments = some .empty) (hdistinct : DistinctFrom gives key)
    {s : σ} {asked : List κ}
    (h : GrowsTo ask ((key, segments) :: pending) tree s asked (.ok root) last) :
    ∃ below next later, ask key s = (.ok below, next) ∧ gives key below ∧
      (below.map Sprout.name).Nodup ∧ asked = key :: later ∧
      GrowsTo ask (stacked segments below pending)
        (tree.replaceAt segments (Dir.empty.prepend (below.map Sprout.entry))) next later
        (.ok root) last := by
  cases h with
  | @planted _ _ _ _ grown _ next _ below later _ answer arrived rest =>
      have hbelow := hgives key s below (congrArg Prod.fst answer)
      have hnames := hdistinct.here hbelow
      rw [update_listed hnames hhole] at arrived
      cases arrived
      exact ⟨below, next, later, answer, hbelow, hnames, rfl, rest⟩
  | dropped answer stopped =>
      rw [Dir.update_eq_replaceAt hhole] at stopped
      cases stopped

/-- Where the loop has come to a tree with all branches of a level pending, the recursion over the
    level has a directory for it, and the loop has gone on with that in its place. -/
theorem unfoldsBy_of_growsTo (asked : List κ) {sprouts : List (Sprout κ)}
    {pending : List (κ × List String)} {tree here : Dir} {segments : List String}
    (hplace : tree.dirAt? segments = some here) (before : List (String × Node))
    (hnew : (before.map Prod.fst ++ sprouts.map Sprout.name).Nodup)
    (hdistinct : DistinctBelow gives sprouts) {s : σ}
    (h : GrowsTo ask (stacked segments sprouts pending)
        (tree.replaceAt segments (Dir.empty.prepend (before ++ sprouts.map Sprout.entry))) s asked
      (.ok root) last) :
    ∃ said entries s' later, said.length + later.length = asked.length ∧
      UnfoldsBy sprouts said (.ok entries) ∧ Answers ask s said s' ∧
      GrowsTo ask pending (tree.replaceAt segments (entries.prepend before)) s' later
        (.ok root) last := by
  induction hlength : asked.length using Nat.strongRecOn
    generalizing asked sprouts pending tree here segments before s with
  | ind length ihlength =>
  induction sprouts generalizing pending before s with
  | nil =>
      simp only [List.map_nil, List.append_nil] at h
      exact ⟨[], .empty, s, asked, by simp [hlength], .nil, .nil, h⟩
  | cons sprout later ih =>
      -- First the later entries, with this one done in front of them and pending if it is a
      -- branch.
      have hpush : (before ++ [sprout.entry]).map Prod.fst ++ later.map Sprout.name =
          before.map Prod.fst ++ (sprout :: later).map Sprout.name := by
        simp [Sprout.entry]
      rw [stacked_cons, List.map_cons, List.append_cons] at h
      obtain ⟨said, rest, s', spare, hspare, hlater, hsaid, hgrow⟩ := ih _ (hpush ▸ hnew)
        hdistinct.tail h
      rw [Dir.prepend_append] at hgrow
      cases sprout with
      | leaf name node => exact ⟨said, _, s', spare, hspare, .leaf hlater, hsaid, hgrow⟩
      | branch name key =>
          have hname : name ∉ before.map Prod.fst := fun hm =>
            (List.nodup_append.1 hnew).2.2 name hm name List.mem_cons_self rfl
          -- The branch is on top of the stack, and empty in the tree. Its level goes into the hole,
          -- and the rest of the run is for what is below.
          have hhole := dirAt?_hole hplace hname rest
          obtain ⟨below, next, left, answer, hbelow, hnames, rfl, hfilled⟩ :=
            GrowsTo.fill hgives hhole hdistinct.branch hgrow
          rw [List.length_cons] at hspare
          obtain ⟨inner, entries, s'', spare', hspare', hinside, hinner, hrest⟩ :=
            ihlength left.length (by omega) left hhole [] hnames (hdistinct.branch.below hbelow)
              hfilled rfl
          rw [show entries.prepend [] = entries from rfl, replaceAt_hole hplace hname] at hrest
          exact ⟨said ++ (key, .ok below) :: inner, _, s'', spare', by simp; omega,
            .branch hlater hinside, hsaid.append (.cons answer hinner), hrest⟩

/-- A loop from the root that comes to a tree does what the recursion from the root's key says. -/
theorem unfoldsFromBy_of_growsTo {key : κ} (hdistinct : DistinctFrom gives key) {s : σ}
    {asked : List κ} (h : GrowsTo ask [(key, [])] .empty s asked (.ok root) last) :
    ∃ said s', UnfoldsFromBy key said (.ok root) ∧ Answers ask s said s' := by
  obtain ⟨below, next, later, answer, hbelow, hnames, rfl, hgrow⟩ :=
    GrowsTo.fill hgives (Dir.dirAt?_nil .empty) hdistinct h
  obtain ⟨said, entries, s', spare, _, hinside, hsaid, hrest⟩ :=
    unfoldsBy_of_growsTo hgives later (Dir.dirAt?_nil .empty) [] hnames (hdistinct.below hbelow)
      hgrow
  -- Nothing is pending, so the directory of the level is the tree.
  cases hrest
  exact ⟨_, _, .listed hinside, .cons answer hsaid⟩

end Loop

namespace UnfoldsBy

variable {sprouts : List (Sprout κ)} {said : List (Exchange κ)} {result : Except Fault Dir}
  (h : UnfoldsBy sprouts said result) {entries : Dir} (hok : result = .ok entries)
  {name : String}

include h hok

/-- A leaf of the level is an entry of the directory. -/
theorem mem_of_leaf {node : Node} (hleaf : .leaf name node ∈ sprouts) :
    (name, node) ∈ entries.toList := by
  induction h generalizing entries with
  | nil => cases hleaf
  | leaf _ ih =>
      cases hok
      rcases List.mem_cons.1 hleaf with hleaf | hleaf
      · cases hleaf
        exact List.mem_cons_self
      · exact List.mem_cons_of_mem _ (ih rfl hleaf)
  | @branch _ _ _ _ _ _ _ result _ _ ih =>
      cases result with
      | error => cases hok
      | ok child =>
          cases hok
          rcases List.mem_cons.1 hleaf with hleaf | hleaf
          · cases hleaf
          · exact List.mem_cons_of_mem _ (ih rfl hleaf)
  | _ => cases hok

/-- A branch of the level is there with the directory under its key. -/
theorem mem_of_branch {key : κ} (hbranch : .branch name key ∈ sprouts) :
    ∃ inner child, UnfoldsFromBy key inner (.ok child) ∧ (name, .dir child) ∈ entries.toList ∧
      inner.Sublist said := by
  induction h generalizing entries with
  | nil => cases hbranch
  | leaf _ ih =>
      cases hok
      rcases List.mem_cons.1 hbranch with hbranch | hbranch
      · cases hbranch
      · rcases ih rfl hbranch with ⟨inner, child, hinner, hmem, hsub⟩
        exact ⟨inner, child, hinner, List.mem_cons_of_mem _ hmem, hsub⟩
  | @branch _ k _ below said inner' _ result _ inside ih =>
      cases result with
      | error => cases hok
      | ok child' =>
          cases hok
          rcases List.mem_cons.1 hbranch with hbranch | hbranch
          · cases hbranch
            exact ⟨(key, .ok below) :: inner', child', .listed inside, List.mem_cons_self,
              List.sublist_append_right said _⟩
          · rcases ih rfl hbranch with ⟨inner, child, hinner, hmem, hsub⟩
            exact ⟨inner, child, hinner, List.mem_cons_of_mem _ hmem,
              hsub.trans (List.sublist_append_left said _)⟩
  | _ => cases hok

end UnfoldsBy

/-- The same where the answers are always the same. -/
theorem Unfolds.mem_of_branch {sprouts : List (Sprout κ)} {asked : List κ} {entries : Dir}
    (h : Unfolds level sprouts asked (.ok entries)) {name : String} {key : κ}
    (hbranch : .branch name key ∈ sprouts) :
    ∃ inner child, UnfoldsFrom level key inner (.ok child) ∧ (name, .dir child) ∈ entries.toList ∧
      inner.length ≤ asked.length := by
  rcases UnfoldsBy.mem_of_branch h rfl hbranch with ⟨inner, child, hinner, hmem, hsub⟩
  have hsame : inner = told level (inner.map Prod.fst) :=
    eq_told_of_forall fun p hp => (mem_told.1 (hsub.subset hp)).2
  rw [hsame] at hinner
  have hlength := hsub.length_le
  rw [told, List.length_map] at hlength
  exact ⟨inner.map Prod.fst, child, hinner, hmem, by rwa [List.length_map]⟩

namespace UnfoldsFrom

variable {key : κ} {asked : List κ} {root : Dir} (h : UnfoldsFrom level key asked (.ok root))
  {segments : List String} {k : κ} (hleads : Leads level key segments k)

include h hleads

/-- The directory under a key stands where the names lead to it, and each name on the way has cost
    at least one request. -/
theorem dirAt?_of_leads (hdistinct : DistinctFrom (Gives level) key) :
    ∃ inner entries, UnfoldsFrom level k inner (.ok entries) ∧
      root.dirAt? segments = some entries ∧ inner.length + segments.length ≤ asked.length := by
  induction hleads generalizing asked root with
  | here => exact ⟨asked, root, h, Dir.dirAt?_nil root, Nat.le_refl _⟩
  | @step key next last name rest sprouts answer found onwards ih =>
      rcases h.exists_level with ⟨below, inner, answer', rfl, inside⟩
      obtain rfl : sprouts = below := Except.ok.inj (answer.symm.trans answer')
      rcases inside.mem_of_branch found with ⟨outer, child, hchild, hmem, hle⟩
      have hbelow : DistinctFrom (Gives level) next := fun segments k hleads =>
        hdistinct (name :: segments) k (.step answer found hleads)
      rcases ih hchild hbelow with ⟨inner', entries, hentries, hat, hle'⟩
      have hfind : root.find? name = some (.dir child) := by
        refine (Dir.find?_eq_some_iff ?_).2 hmem
        rw [UnfoldsBy.names_eq inside rfl]
        exact hdistinct.here answer
      refine ⟨inner', entries, hentries, Dir.dirAt?_cons_eq_some_iff.2 ⟨child, hfind, hat⟩, ?_⟩
      rw [List.length_cons, List.length_cons]
      omega

/-- A leaf in the level of a key stands behind the names that lead to the key. -/
theorem follow_of_leaf (hdistinct : DistinctFrom (Gives level) key) {below : List (Sprout κ)}
    (answer : level k = .ok below) {name : String} {node : Node}
    (hleaf : .leaf name node ∈ below) : root.follow (segments ++ [name]) = some node := by
  rcases h.dirAt?_of_leads hleads hdistinct with ⟨_, entries, hentries, hat, _⟩
  rcases hentries.exists_level with ⟨below', _, answer', _, inside⟩
  cases answer.symm.trans answer'
  have hfind : entries.find? name = some node := by
    refine (Dir.find?_eq_some_iff ?_).2 (UnfoldsBy.mem_of_leaf inside rfl hleaf)
    rw [UnfoldsBy.names_eq inside rfl]
    exact hdistinct segments k hleads below answer
  rw [Dir.follow, Node.follow_append, ← Dir.follow, Dir.dirAt?_eq_some_iff.1 hat,
    Option.bind_some, Node.follow, hfind]
  exact Node.follow_nil node

omit hleads in
/-- No key leads back to itself: from there on everything would have been asked for again. -/
theorem segments_eq_nil (hdistinct : DistinctFrom (Gives level) key)
    (hloop : Leads level key segments key) : segments = [] := by
  rcases h.dirAt?_of_leads hloop hdistinct with ⟨inner, _, hinner, _, hle⟩
  rw [(h.unique hinner).1] at hle
  exact List.length_eq_zero_iff.1 (by omega)

end UnfoldsFrom

end TreeShell
