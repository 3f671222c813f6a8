import TreeShell.Backend.Repository
import TreeShell.Proofs.Tree.Grown

/-!
# Walking the Repository

The tree of a repository is the unfolding of a graph: two entries may have one id, and each of them
becomes a directory of its own. So a walk may fetch one id several times, and that it ends is owed
to there being no way from an id back to itself. Between any two fetches it pauses.

An id that was granted once may be refused the next time, or be answered otherwise. What the walk
comes to is therefore said with the answers that it got, one for each fetch, and the repository is
asked whether these are the answers that it gives in this order (`Repository.Says`).

The pauses depend only on how many fetches there were, so the steps of a walk are read off the list
of the ids it fetched (`paced`). With the pauses a walk keeps the order that the recursion gives:
whatever it comes to, no fetch and no pause follows a refused one.

## Main definitions

* `Repository.sprouts`: The level with an id, to grow from.
* `Repository.Gives`: A level that an id may have.
* `Repository.Says`: Asked for ids one after another, the repository gives these answers.
* `Repository.Bounded`: From an id only so many ids can be reached, and none of them from itself.
* `nextFetch`, `paced`: The steps of a walk that fetches some ids.

## Theorems

* `Repository.answers_paced`: A walk gets the answers that the repository gives.
* `Repository.tree_unfolds`: The walk is the recursion over the ids, with its pauses.
-/

namespace TreeShell

theorem RepoEntry.name_sprout (e : RepoEntry) : e.sprout.name = e.name := by
  unfold sprout
  split <;> rfl

/-- Every leaf of a repository is a file. -/
theorem RepoEntry.sprout_ne_leaf_dir (e : RepoEntry) (name : String) (entries : Dir) :
    e.sprout ≠ .leaf name (.dir entries) := by
  unfold sprout
  split
  · nofun
  · nofun

/-- What there is to ask for in a level are its trees. -/
theorem RepoEntry.eq_of_sprout_eq_branch {name child : String} {e : RepoEntry}
    (h : e.sprout = .branch name child) : e.kind = .tree ∧ child = e.id := by
  unfold sprout at h
  split at h
  · cases h
  · rename_i hkind
    exact ⟨hkind, (Sprout.branch.inj h).2.symm⟩

/-- A fetch that is not the first. -/
def nextFetch (pacing : Nat) (id : String) : List WalkStep :=
  (if pacing = 0 then [] else [.pause pacing]) ++ [.fetch id]

/-- The steps of a walk that fetches `ids`. -/
def paced (pacing : Nat) : List String → List WalkStep
  | [] => []
  | first :: later => .fetch first :: later.flatMap (nextFetch pacing)

namespace Repository

/-- What the level with an id gives to grow from, after the ids asked for before. -/
def sprouts (r : Repository) (past : List String) : String → Except Fault (List (Sprout String)) :=
  levelOf (r.level past) fun _ => RepoEntry.sprout

/-- A level that an id may have, whatever was asked for before. -/
def Gives (r : Repository) (id : String) (below : List (Sprout String)) : Prop :=
  ∃ past, r.sprouts past id = .ok below

/-- After the ids `past` the repository is asked for ids one after another, and it answers as in
    `said`. -/
def Says (r : Repository) : List String → List (Exchange String) → Prop
  | _, [] => True
  | past, (id, answer) :: later => r.sprouts past id = answer ∧ r.Says (past ++ [id]) later

/-- From `head` only so many ids can be reached, and no way from one of them leads back to it. -/
structure Bounded (r : Repository) (head : String) : Prop where
  finite : {id | ∃ segments, LeadsBy r.Gives head segments id}.Finite
  acyclic : ∀ segments id, LeadsBy r.Gives head segments id →
    ∀ name rest, ¬ LeadsBy r.Gives id (name :: rest) id

theorem fetched_ask (r : Repository) (pacing : Nat) (id : String) (walk : Walk) :
    (r.ask pacing id walk).2.fetched = walk.fetched ++ [id] := by
  unfold ask Walk.fetched
  dsimp only
  split <;> simp [List.filterMap_cons, WalkStep.id?]

/-- What a walk is answered is what the repository gives. -/
theorem says_of_answers {r : Repository} {pacing : Nat} {said : List (Exchange String)}
    {walk last : Walk} (h : Answers (r.ask pacing) walk said last) : r.Says walk.fetched said := by
  induction h with
  | nil => trivial
  | @cons walk _ _ id _ _ asked _ ih =>
      have hfetched := r.fetched_ask pacing id walk
      rw [asked] at hfetched
      exact ⟨congrArg Prod.fst asked, hfetched ▸ ih⟩

/-- What the repository says has levels that it may give. -/
theorem Says.gives {r : Repository} {past : List String} {said : List (Exchange String)}
    (h : r.Says past said) {id : String} {below : List (Sprout String)}
    (hmem : (id, .ok below) ∈ said) : r.Gives id below := by
  induction said generalizing past with
  | nil => cases hmem
  | cons p later ih =>
      rcases List.mem_cons.1 hmem with rfl | hmem
      · exact ⟨past, h.1⟩
      · exact ih h.2 hmem

/-- A repository that always answers the same says what it is told to say. -/
theorem says_told {r : Repository} {level : String → Except Fault (List RepoEntry)}
    (h : ∀ past id, r.level past id = level id) (past ids : List String) :
    r.Says past (told (levelOf level fun _ => RepoEntry.sprout) ids) := by
  induction ids generalizing past with
  | nil => trivial
  | cons id later ih => exact ⟨congrArg (Except.map _) (h past id), ih _⟩

/-- Once something was fetched, each further fetch comes with its pause. -/
theorem answers_later {r : Repository} (pacing : Nat) {said : List (Exchange String)} {walk : Walk}
    (h : walk.steps ≠ []) (hanswered : r.Says walk.fetched said) :
    Answers (r.ask pacing) walk said
      ⟨walk.steps ++ (said.map Prod.fst).flatMap (nextFetch pacing)⟩ := by
  induction said generalizing walk with
  | nil =>
      rw [List.map_nil, List.flatMap_nil, List.append_nil]
      exact .nil
  | cons p later ih =>
      rcases p with ⟨id, answer⟩
      have hask : r.ask pacing id walk = (answer, ⟨walk.steps ++ nextFetch pacing id⟩) := by
        rw [← hanswered.1]
        simp only [ask, h, false_or, List.append_assoc]
        rfl
      have hfetched := r.fetched_ask pacing id walk
      rw [hask] at hfetched
      have hrest := ih (List.append_ne_nil_of_left_ne_nil h _) (hfetched ▸ hanswered.2)
      rw [List.append_assoc, ← List.flatMap_cons] at hrest
      exact .cons hask hrest

/-- A walk gets the answers that the repository gives, and has gone through its steps. -/
theorem answers_paced {r : Repository} (pacing : Nat) {said : List (Exchange String)}
    (h : r.Says [] said) :
    Answers (r.ask pacing) {} said ⟨paced pacing (said.map Prod.fst)⟩ := by
  cases said with
  | nil => exact .nil
  | cons p later =>
      rcases p with ⟨id, answer⟩
      have hask : r.ask pacing id {} = (answer, ⟨[.fetch id]⟩) := by
        rw [← h.1]
        rfl
      exact .cons hask (answers_later pacing (List.cons_ne_nil _ _) h.2)

/-- From a bounded id the recursion has a result, with the answers that the repository gives. -/
theorem exists_unfoldsFromBy {r : Repository} {head : String} (h : r.Bounded head) :
    ∃ said result, UnfoldsFromBy head said result ∧ r.Says [] said := by
  have hacc := ChildBy.acc_of_finite h.finite h.acyclic
  have hasked : Acc (fun id above =>
      ChildBy (fun k below => ∃ walk, (r.ask 0 k walk).1 = .ok below) above id) head := by
    refine Subrelation.accessible (fun {id above} hchild => ?_) hacc
    rcases hchild with ⟨below, ⟨walk, hbelow⟩, hfound⟩
    exact ⟨below, ⟨walk.fetched, hbelow⟩, hfound⟩
  rcases UnfoldsFromBy.exists_of_acc hasked {} with ⟨said, result, _, hfrom, hsaid⟩
  exact ⟨said, result, hfrom, says_of_answers hsaid⟩

/-- The walk is the recursion over the ids, and between two fetches it pauses. Without a commit it
    is an empty tree and fetches nothing. Else it fetches only what can be reached, with the answers
    that the repository gives at that point, and fails where a fetch is refused, with the first
    refusal and nothing after it; or it has fetched once for each directory. -/
theorem tree_unfolds (r : Repository)
    (hbounded : ∀ head, r.head = .ok head → r.Bounded head) :
    (∀ fault, r.head = .error fault → ∀ pacing, r.tree pacing = some (.ok .empty, {})) ∧
    ∀ head, r.head = .ok head → ∃ said result, UnfoldsFromBy head said result ∧ r.Says [] said ∧
      (∀ p ∈ said, ∃ segments, LeadsBy r.Gives head segments p.1) ∧
      ((∃ root, result = .ok root) ↔ ∀ p ∈ said, ∃ below, p.2 = .ok below) ∧
      ((∀ id below, (id, .ok below) ∈ said → (below.map Sprout.name).Nodup) →
        (∀ root, result = .ok root →
          CoversBy (fun id below => (id, .ok below) ∈ said) head (said.map Prod.fst) root) ∧
        (∀ fault, result = .error fault → RefusedLastBy said fault) ∧
        ∀ pacing, r.tree pacing = some (result, ⟨paced pacing (said.map Prod.fst)⟩)) := by
  constructor
  · intro fault hhead pacing
    rw [tree, hhead]
  · intro head hhead
    rcases exists_unfoldsFromBy (hbounded head hhead) with ⟨said, result, hfrom, hanswered⟩
    refine ⟨said, result, hfrom, hanswered,
      fun p hp => hfrom.reached (fun _ _ => hanswered.gives) hp, hfrom.isOk_iff, fun hnames => ?_⟩
    have hclosed : ∀ id below, (id, .ok below) ∈ said → Sprout.Closed below := by
      intro id below hmem
      rcases hanswered.gives hmem with ⟨past, hlevel⟩
      rcases levelOf_eq_ok_iff.1 hlevel with ⟨entries, _, rfl⟩
      exact Sprout.closed_map RepoEntry.sprout_ne_leaf_dir entries
    refine ⟨fun root hok => hfrom.covers hok (fun _ _ hmem => hmem)
      fun id below hmem => ⟨hclosed id below hmem, hnames id below hmem⟩,
      fun fault => hfrom.refusedLast, fun pacing => ?_⟩
    rw [tree, hhead]
    exact grow_unfoldsFrom hfrom hnames (answers_paced pacing hanswered)

/-- A repository in which two directories have the same tree. It may grant that tree only once. -/
def sample (again : Bool) : Repository where
  head := .ok "top"
  level past id :=
    if id = "top" then
      .ok [⟨.tree, "first", "shared"⟩, ⟨.blob, "file", ""⟩, ⟨.tree, "last", "shared"⟩]
    else if id = "shared" ∧ (again ∨ "shared" ∉ past) then .ok [⟨.blob, "inside", ""⟩]
    else .error (.provider "not granted")

/-- Nothing lies below the shared tree, and nothing but it below the head. -/
theorem bounded_sample (again : Bool) : (sample again).Bounded "top" := by
  have htop {below : List (Sprout String)} (h : (sample again).Gives "top" below) :
      below = [.branch "first" "shared", .leaf "file" (.file true), .branch "last" "shared"] := by
    rcases h with ⟨past, hbelow⟩
    exact (Except.ok.inj hbelow).symm
  have hshared {below : List (Sprout String)} (h : (sample again).Gives "shared" below) :
      below = [.leaf "inside" (.file true)] := by
    rcases h with ⟨past, hbelow⟩
    rcases levelOf_eq_ok_iff.1 hbelow with ⟨entries, hentries, rfl⟩
    simp only [sample, String.reduceEq, if_false, true_and] at hentries
    split at hentries
    · cases hentries
      rfl
    · cases hentries
  have hend : ∀ segments id, LeadsBy (sample again).Gives "shared" segments id → segments = [] := by
    rintro _ _ (_ | ⟨answer, found, _⟩)
    · rfl
    · cases hshared answer
      simp at found
  have hway : ∀ segments id, LeadsBy (sample again).Gives "top" segments id →
      segments = [] ∧ id = "top" ∨ id = "shared" := by
    rintro _ _ (_ | ⟨answer, found, onwards⟩)
    · exact .inl ⟨rfl, rfl⟩
    · cases htop answer
      simp only [List.mem_cons, Sprout.branch.injEq, reduceCtorEq, List.not_mem_nil, false_or,
        or_false] at found
      rcases found with ⟨_, rfl⟩ | ⟨_, rfl⟩
      all_goals
        cases hend _ _ onwards
        cases onwards
        exact .inr rfl
  constructor
  · refine (Set.toFinite {"top", "shared"}).subset ?_
    rintro id ⟨segments, h⟩
    rcases hway segments id h with ⟨_, rfl⟩ | rfl <;> simp
  · intro segments id h name rest hcycle
    rcases hway segments id h with ⟨_, rfl⟩ | rfl
    · rcases hway _ _ hcycle with ⟨hnil, _⟩ | hother
      · cases hnil
      · exact absurd hother (by decide)
    · cases hend _ _ hcycle

/-- Where the shared tree is granted each time, it stands in both places. Else the walk ends with
    the refusal of the directory that comes first in the listing, since that is asked for last. -/
theorem tree_unfolds_sample :
    (∀ again head, (sample again).head = .ok head → (sample again).Bounded head) ∧
      (sample true).tree 500 =
        some (.ok (.entry "first" (.dir (.entry "inside" (.file true) .empty))
            (.entry "file" (.file true)
              (.entry "last" (.dir (.entry "inside" (.file true) .empty)) .empty))),
          ⟨[.fetch "top", .pause 500, .fetch "shared", .pause 500, .fetch "shared"]⟩) ∧
      (sample false).tree 500 =
        some (.error (.provider "not granted"),
          ⟨[.fetch "top", .pause 500, .fetch "shared", .pause 500, .fetch "shared"]⟩) := by
  have hbounded : ∀ again head, (sample again).head = .ok head → (sample again).Bounded head := by
    intro again head hhead
    obtain rfl : "top" = head := Except.ok.inj hhead
    exact bounded_sample again
  -- What the recursion says of the answers, by hand.
  have hwalk (again : Bool) {said : List (Exchange String)} {result : Except Fault Dir}
      (hunfolds : UnfoldsFromBy "top" said result) (hanswered : (sample again).Says [] said) :
      (sample again).tree 500 = some (result, ⟨paced 500 (said.map Prod.fst)⟩) := by
    obtain ⟨said', result', h, hanswered', -, -, hbuild⟩ :=
      (tree_unfolds (sample again) (hbounded again)).2 "top" rfl
    obtain ⟨rfl, rfl⟩ :=
      hunfolds.unique (answers_paced 500 hanswered) h (answers_paced 500 hanswered')
    refine (hbuild fun id below hmem => ?_).2.2 500
    rcases hanswered.gives hmem with ⟨past, hlevel⟩
    rcases levelOf_eq_ok_iff.1 hlevel with ⟨entries, hentries, rfl⟩
    simp only [sample] at hentries
    split at hentries
    · cases hentries
      decide
    · split at hentries
      · cases hentries
        decide
      · cases hentries
  refine ⟨hbounded, ?_, ?_⟩
  · exact hwalk true (.listed (.branch (.leaf (.branch .nil (.leaf .nil))) (.leaf .nil)))
      ⟨rfl, rfl, rfl, trivial⟩
  · exact hwalk false (.listed (.refused (.leaf (.branch .nil (.leaf .nil)))))
      ⟨rfl, rfl, rfl, trivial⟩

end Repository

end TreeShell
