import TreeShell.Proofs.Path.Relative
import TreeShell.Proofs.Tree.Folders

/-!
# What Stands at a Path, by Its Prefixes

Looking up a path is a walk that carries what it has found so far. What it comes to can be said
without the walk. A node is reached if every name on the way is an entry of a readable directory,
and it is found if it is reached. Only a denied directory is found further on as well: it answers
for every path that leads through it. Everything else has nothing below it, or is a directory that
can be entered.

So access is a matter of prefixes. A path is denied exactly if one of its prefixes reaches a denied
directory, and what is found as a file or a directory has only readable directories above it. The
answer does not depend on where the path was typed or how.

The names of each directory have to be distinct. A second entry of a name is an entry like any
other, but it is never found.

## Main definitions

* `Node.Reaches`, `Dir.Reaches`: A node is reached through readable directories only.

## Theorems

* `Node.Reaches.exists_dir`: Whatever is reached stands below readable directories.
* `Node.follow_of_reaches`, `Node.reaches_or_denied_of_follow`: What is reached is found, and what
  is found is reached, or denied from above.
* `Dir.follow_eq_denied_iff`, `Dir.follow_eq_some_iff`, `Dir.follow_eq_none_iff`: What is found.
* `Dir.follow_append_of_leaf`, `Dir.exists_follow_dir_above`: What is found further on, and before.
* `Dir.resolve_by_prefixes`: All of this for typed paths.
-/

namespace TreeShell

/-- Some names lead from a node to `target`, each of them an entry of a readable directory. -/
inductive Node.Reaches (target : Node) : Node → List String → Prop where
  | here : Node.Reaches target target []
  | step {entries : Dir} {name : String} {child : Node} {rest : List String}
      (entry : (name, child) ∈ entries.toList) (onward : Node.Reaches target child rest) :
      Node.Reaches target (.dir entries) (name :: rest)

/-- The names lead from the root of a tree to `target`. -/
def Dir.Reaches (root : Dir) (segments : List String) (target : Node) : Prop :=
  Node.Reaches target (.dir root) segments

namespace Node

/-- Whatever is reached by going on stands below a readable directory, which is reached before. -/
theorem Reaches.exists_dir {start target : Node} {above rest : List String}
    (h : Reaches target start (above ++ rest)) (hne : rest ≠ []) :
    ∃ entries, Reaches (.dir entries) start above := by
  induction above generalizing start with
  | nil =>
      obtain ⟨name, more, rfl⟩ := List.exists_cons_of_ne_nil hne
      cases h with
      | step entry onward => exact ⟨_, .here⟩
  | cons name above ih =>
      cases h with
      | step entry onward =>
          rcases ih onward with ⟨entries, habove⟩
          exact ⟨entries, .step entry habove⟩

/-- What is reached is found, if a name stands for one entry. -/
theorem follow_of_reaches {start target : Node} {segments : List String}
    (hdistinct : start.Everywhere fun d => d.names.Nodup) (h : Reaches target start segments) :
    start.follow segments = some target := by
  induction h with
  | here => exact follow_nil target
  | @step entries name child rest entry onward ih =>
      have hfind : entries.find? name = some child :=
        (Dir.find?_eq_some_iff hdistinct.1).2 entry
      rw [follow, hfind]
      exact ih ((Dir.below_iff entries).1 hdistinct.2 _ entry)

/-- What is found is reached, or it is the denial of a directory above. -/
theorem reaches_or_denied_of_follow {start target : Node} {segments : List String}
    (hdistinct : start.Everywhere fun d => d.names.Nodup)
    (h : start.follow segments = some target) :
    Reaches target start segments ∨
      target = .denied ∧ ∃ above, above <+: segments ∧ Reaches .denied start above := by
  induction segments generalizing start with
  | nil =>
      rw [follow_nil, Option.some.injEq] at h
      exact .inl (h ▸ .here)
  | cons name rest ih =>
      -- Only a directory leads further; what is denied there is denied here, one name earlier.
      cases start with
      | dir entries =>
          rw [follow] at h
          cases hfind : entries.find? name with
          | none =>
              rw [hfind] at h
              cases h
          | some child =>
              rw [hfind] at h
              have entry := (Dir.find?_eq_some_iff hdistinct.1).1 hfind
              rcases ih ((Dir.below_iff entries).1 hdistinct.2 _ entry) h with
                honward | ⟨rfl, above, ⟨more, hmore⟩, honward⟩
              · exact .inl (.step entry honward)
              · exact .inr ⟨rfl, name :: above, ⟨more, congrArg (name :: ·) hmore⟩,
                  .step entry honward⟩
      | denied =>
          -- The denial itself is reached without a step.
          rw [follow_denied, Option.some.injEq] at h
          exact .inr ⟨h.symm, [], List.nil_prefix, .here⟩
      | file => cases h

end Node

namespace Dir

variable {root : Dir} {path above rest : List String}

/-- Below a file there is nothing, nor is there where nothing was. -/
theorem follow_append_of_leaf
    (h : root.follow above = none ∨ ∃ mark, root.follow above = some (.file mark))
    (hne : rest ≠ []) : root.follow (above ++ rest) = none := by
  rw [follow, Node.follow_append]
  rcases h with h | ⟨mark, h⟩
  · rw [show (Node.dir root).follow above = none from h, Option.bind_none]
  · obtain ⟨name, more, rfl⟩ := List.exists_cons_of_ne_nil hne
    rw [show (Node.dir root).follow above = some (.file mark) from h, Option.bind_some,
      Node.follow]

/-- A file or a readable directory is found exactly where it is reached. -/
theorem follow_eq_some_iff (h : root.Distinct) {node : Node} (hnode : node ≠ .denied) :
    root.follow path = some node ↔ root.Reaches path node := by
  constructor
  · intro hfollow
    rcases Node.reaches_or_denied_of_follow h hfollow with hreaches | ⟨hdenied, _⟩
    · exact hreaches
    · exact absurd hdenied hnode
  · exact Node.follow_of_reaches h

/-- A denied directory is found where a prefix of the path reaches one. -/
theorem follow_eq_denied_iff (h : root.Distinct) :
    root.follow path = some .denied ↔ ∃ above, above <+: path ∧ root.Reaches above .denied := by
  constructor
  · intro hfollow
    rcases Node.reaches_or_denied_of_follow h hfollow with hreaches | ⟨_, above⟩
    · exact ⟨path, List.prefix_refl path, hreaches⟩
    · exact above
  · rintro ⟨above, ⟨rest, rfl⟩, hreaches⟩
    exact follow_denied_append (Node.follow_of_reaches h hreaches) rest

/-- Nothing is found where nothing is reached and nothing on the way is denied. -/
theorem follow_eq_none_iff (h : root.Distinct) :
    root.follow path = none ↔
      (∀ above, above <+: path → ¬root.Reaches above .denied) ∧
        ∀ node, ¬root.Reaches path node := by
  constructor
  · intro hnone
    refine ⟨fun above habove hdenied => ?_, fun node hreaches => ?_⟩
    · have hfollow := (follow_eq_denied_iff h).2 ⟨above, habove, hdenied⟩
      rw [hnone] at hfollow
      cases hfollow
    · have hfollow : root.follow path = some node := Node.follow_of_reaches h hreaches
      rw [hnone] at hfollow
      cases hfollow
  · rintro ⟨hdenied, hreaches⟩
    cases hfollow : root.follow path with
    | none => rfl
    | some node =>
        rcases Node.reaches_or_denied_of_follow h hfollow with hhere | ⟨_, above, habove, hhere⟩
        · exact absurd hhere (hreaches node)
        · exact absurd hhere (hdenied above habove)

/-- What is reached has only readable directories above it. -/
theorem Reaches.dir_above {node : Node} (h : root.Reaches path node) {above : List String}
    (habove : above <+: path) (hne : above ≠ path) :
    ∃ entries, root.Reaches above (.dir entries) := by
  rcases habove with ⟨rest, rfl⟩
  exact Node.Reaches.exists_dir h fun hnil => hne (by rw [hnil, List.append_nil])

/-- A readable directory is reached exactly where every prefix of the path reaches one. -/
theorem exists_reaches_dir_iff : (∃ entries, root.Reaches path (.dir entries)) ↔
    ∀ above, above <+: path → ∃ entries, root.Reaches above (.dir entries) := by
  constructor
  · rintro ⟨entries, hreaches⟩ above habove
    by_cases hsame : above = path
    · exact ⟨entries, hsame ▸ hreaches⟩
    · exact hreaches.dir_above habove hsame
  · exact fun hall => hall path (List.prefix_refl path)

/-- What is found has readable directories above it, unless it is a denial. -/
theorem exists_follow_dir_above (h : root.Distinct) {node : Node}
    (hfound : root.follow path = some node) (hnode : node ≠ .denied) (habove : above <+: path)
    (hne : above ≠ path) : ∃ entries, root.follow above = some (.dir entries) := by
  have hreaches := (follow_eq_some_iff h hnode).1 hfound
  rcases hreaches.dir_above habove hne with ⟨entries, hdir⟩
  exact ⟨entries, Node.follow_of_reaches h hdir⟩

/-- What a typed path comes to is decided by the tree and by the path that was read. It is denied
    exactly if some prefix of the path, or the path itself, reaches a denied directory. It is a
    readable directory exactly if every prefix reaches one, and then it is the one that is reached;
    it is a file exactly if every proper prefix reaches a readable directory and the path reaches
    that file; and it is nothing if neither a node is reached nor a denied directory on the way.

    So whatever is typed for a path further on is denied below what is denied, and nothing below
    a file and below nothing; and whatever is typed for a proper prefix of the path of a file or a
    readable directory is a readable directory. Any ordinary names can be typed behind what was
    typed, to get to the path further on. -/
theorem resolve_by_prefixes {root : Dir} (h : root.Distinct) (cwd home : Path) (input : String) :
    let found := root.resolve cwd home input
    let path := found.path.segments
    (found.node = some .denied ↔ ∃ above, above <+: path ∧ root.Reaches above .denied) ∧
    ((∃ entries, found.node = some (.dir entries)) ↔
      ∀ above, above <+: path → ∃ entries, root.Reaches above (.dir entries)) ∧
    (∀ entries, found.node = some (.dir entries) ↔ root.Reaches path (.dir entries)) ∧
    (∀ mark, found.node = some (.file mark) ↔
      (∀ above, above <+: path → above ≠ path → ∃ entries, root.Reaches above (.dir entries)) ∧
        root.Reaches path (.file mark)) ∧
    (found.node = none ↔
      (∀ above, above <+: path → ¬root.Reaches above .denied) ∧
        ∀ node, ¬root.Reaches path node) ∧
    (∀ cwd' home' input', let other := root.resolve cwd' home' input'
      (other.path = found.path → other.node = found.node) ∧
      (path <+: other.path.segments → found.node = some .denied → other.node = some .denied) ∧
      (path <+: other.path.segments → path ≠ other.path.segments →
        (found.node = none ∨ ∃ mark, found.node = some (.file mark)) → other.node = none) ∧
      (other.path.segments <+: path → other.path.segments ≠ path →
        ((∃ mark, found.node = some (.file mark)) ∨
          ∃ entries, found.node = some (.dir entries)) →
        ∃ entries, other.node = some (.dir entries))) ∧
    ∀ names, names ≠ [] → (∀ s ∈ names, Path.OrdinaryName s) →
      (root.resolve cwd home (input ++ "/" ++ Path.joined names)).path.segments =
        path ++ names := by
  intro found path
  have hdir : ∀ entries, found.node = some (.dir entries) ↔ root.Reaches path (.dir entries) :=
    fun entries => follow_eq_some_iff h nofun
  have hfile : ∀ mark, found.node = some (.file mark) ↔ root.Reaches path (.file mark) :=
    fun mark => follow_eq_some_iff h nofun
  refine ⟨follow_eq_denied_iff h, ?_, hdir, fun mark => ?_, follow_eq_none_iff h,
    fun cwd' home' input' => ?_, fun names hne hnames => ?_⟩
  · simp only [hdir]
    exact exists_reaches_dir_iff
  · rw [hfile]
    exact ⟨fun hreaches => ⟨fun _ habove hne => hreaches.dir_above habove hne, hreaches⟩,
      fun hboth => hboth.2⟩
  · -- Another text for the same path, for one further on, and for one on the way.
    intro other
    have hother : other.node = root.follow other.path.segments := rfl
    refine ⟨?_, ?_, ?_, ?_⟩
    · intro hpath
      rw [hother, hpath]
      rfl
    · rintro ⟨rest, hrest⟩ hdenied
      rw [hother, ← hrest]
      exact follow_denied_append hdenied rest
    · rintro ⟨rest, hrest⟩ hne hleaf
      rw [hother, ← hrest]
      refine follow_append_of_leaf hleaf fun hnil => hne ?_
      rw [← hrest, hnil, List.append_nil]
    · intro hprefix hne hfound
      rcases hfound with ⟨mark, hmark⟩ | ⟨entries, hentries⟩
      · exact exists_follow_dir_above h hmark nofun hprefix hne
      · exact exists_follow_dir_above h hentries nofun hprefix hne
  · exact congrArg Path.segments (Path.normalize_append_joined hne hnames cwd home input)

/-- What lies below a denied directory and below a file, and what lies above the file. -/
theorem resolve_by_prefixes_secret :
    let home : Path := .home "u"
    let user := ofList [("secret", .denied), ("a.txt", .file true)]
    let root := ofList [("home", .dir (ofList [("u", .dir user)]))]
    (root.resolve home home "secret/x").node = some .denied ∧
      (root.resolve .root home ("~/secret/x" ++ "/" ++ Path.joined ["y", "z"])).node =
        some .denied ∧
      (root.resolve .root home "~/a.txt").node = some (.file true) ∧
      (root.resolve home home "./a.txt/b").node = none ∧
      ∃ entries, (root.resolve ⟨["tmp"]⟩ home "../home").node = some (.dir entries) := by
  intro home user root
  have hdistinct : root.Everywhere fun d => d.names.Nodup := by decide
  have huser : ("u", .dir user) ∈ (ofList [("u", .dir user)]).toList := by decide
  have hhome : ("home", .dir (ofList [("u", .dir user)])) ∈ root.toList := by decide
  have hentry : ∀ name node, (name, node) ∈ user.toList →
      root.Reaches ["home", "u", name] node := fun name node hmem =>
    .step hhome (.step huser (.step hmem .here))
  have hsecret : root.Reaches ["home", "u", "secret"] .denied := hentry _ _ (by decide)
  have hfile : root.Reaches ["home", "u", "a.txt"] (.file true) := hentry _ _ (by decide)
  have hdenied := (resolve_by_prefixes hdistinct home home "secret/x").1.2
    ⟨["home", "u", "secret"], ⟨["x"], by decide⟩, hsecret⟩
  rcases resolve_by_prefixes hdistinct .root home "~/secret/x" with
    ⟨hdenied_iff, _, _, _, _, hother, htyped⟩
  have hbelow := htyped ["y", "z"] (by decide) (by decide)
  rcases resolve_by_prefixes hdistinct .root home "~/a.txt" with ⟨_, _, _, hfile_iff, _, hplaces, _⟩
  have hfound := (hfile_iff true).2 ⟨fun _ habove hne => hfile.dir_above habove hne, hfile⟩
  refine ⟨hdenied, ?_, hfound, ?_, ?_⟩
  · exact (hother .root home _).2.1 ⟨["y", "z"], hbelow.symm⟩
      (hdenied_iff.2 ⟨["home", "u", "secret"], ⟨["x"], by decide⟩, hsecret⟩)
  · exact (hplaces home home "./a.txt/b").2.2.1 ⟨["b"], by decide⟩ (by decide) (.inr ⟨true, hfound⟩)
  · exact (hplaces ⟨["tmp"]⟩ home "../home").2.2.2 ⟨["u", "a.txt"], by decide⟩ (by decide)
      (.inl ⟨true, hfound⟩)

end Dir

end TreeShell
