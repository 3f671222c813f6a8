import TreeShell.Proofs.Backend.Listing
import TreeShell.Proofs.Command.Accepted
import TreeShell.Proofs.Tree.Grafted

/-!
# What a Rebuild Comes To

A rebuild is a sequence of steps any of which the provider may refuse: listing after listing, and
then perhaps the repository's tree. `Builds` follows it through the answers, to a tree or to none.
It is a relation and not another computation, so that each way to end is one case which carries the
answers that led there, and a proof about rebuilds is a proof of these four cases. Where the
listings never end there is no case, and the command never comes back.

The command looks for the repository's place by typing its path, and hangs the repository in by
typing it again. For a home directory that can be typed both come to the same place, and `Assembles`
says without any typing which tree is built: the storage tree, or the storage tree with the
repository written into the directory `repositories` of the home directory.

Whatever the provider answers, a rebuild asks for listings and for the repository's tree and never
for the contents of a file.

## Main definitions

* `Request.place?`: The place a request asks for contents at, if it asks for contents.
* `Traffic.Grows`: Some requests were made, all of one kind.
* `Traffic.Lists`: Nothing but listings and trees were asked for.
* `Accounts.AdminSignedIn`: Whoever is signed in may rebuild the tree.
* `Environment.Builds`: What a rebuild comes to.
* `Environment.Assembles`: Which tree that is, for a home directory that can be typed.

## Theorems

* `Environment.exists_builds`, `Environment.Builds.outcome`: A rebuild whose listings end comes to
  what `Builds` says.
* `Environment.Builds.lists`: It asks for no contents.
* `Environment.builds_some_iff`: It comes to the tree that `Assembles` names.
* `Environment.outcome_reset_refused`, `Environment.outcome_reset_endless`,
  `Environment.outcome_reset_unbuilt`, `Environment.outcome_reset_built`: The command, without an
  administrator and with one.
-/

namespace TreeShell

/-- The place at which a request asks for the contents of a file. Requests for listings and for the
    repository's tree ask for no contents. -/
def Request.place? : Request → Option Place
  | .listing _ => none
  | .repositoryTree _ _ => none
  | .text place => some place
  | .image place => some place

/-- `after` goes on from `before` with requests that all satisfy `P`. -/
def Traffic.Grows (P : Request → Prop) (before after : Traffic) : Prop :=
  ∃ asked, after.requests = before.requests ++ asked ∧ ∀ r ∈ asked, P r

namespace Traffic.Grows

variable {P Q : Request → Prop} {a b c : Traffic}

theorem refl (P : Request → Prop) (traffic : Traffic) : traffic.Grows P traffic :=
  ⟨[], (List.append_nil _).symm, fun _ h => absurd h List.not_mem_nil⟩

theorem trans (hab : a.Grows P b) (hbc : b.Grows P c) : a.Grows P c := by
  rcases hab with ⟨first, hfirst, hp⟩
  rcases hbc with ⟨second, hsecond, hp'⟩
  refine ⟨first ++ second, ?_, fun r hr => ?_⟩
  · rw [hsecond, hfirst, List.append_assoc]
  · rcases List.mem_append.1 hr with hr | hr
    · exact hp r hr
    · exact hp' r hr

theorem mono (hpq : ∀ r, P r → Q r) (h : a.Grows P b) : a.Grows Q b := by
  rcases h with ⟨asked, hasked, hp⟩
  exact ⟨asked, hasked, fun r hr => hpq r (hp r hr)⟩

end Traffic.Grows

/-- `after` goes on from `before` with requests that ask for no contents. -/
def Traffic.Lists (before after : Traffic) : Prop := before.Grows (·.place? = none) after

theorem Content.lists_of_ask {c : Content} {r : Request} {before after : Traffic}
    {answer : Except Fault r.Answer} (hplace : r.place? = none)
    (h : c.ask r before = (answer, after)) : before.Lists after := by
  rw [ask, Prod.mk.injEq] at h
  rw [← h.2]
  exact ⟨[r], rfl, List.forall_mem_singleton.2 hplace⟩

/-- Somebody is signed in who may rebuild the tree. -/
def Accounts.AdminSignedIn (a : Accounts) : Prop :=
  ∃ email, a.signedIn = some email ∧ email ∈ a.admins

theorem Accounts.adminSignedIn_iff (a : Accounts) :
    a.AdminSignedIn ↔ a.signedIn.any a.isPrivileged = true := by
  rw [Option.any_eq_true]
  simp only [AdminSignedIn, isPrivileged, List.contains_iff_mem]

instance (a : Accounts) : Decidable a.AdminSignedIn :=
  decidable_of_iff' _ a.adminSignedIn_iff

/-- Growing the storage tree asks for nothing but listings. -/
theorem Content.lists_of_storageTree {c : Content} {before after : Traffic}
    {answer : Except Fault Dir} (h : c.storageTree before = some (answer, after)) :
    before.Lists after := by
  rcases exists_growsTo_of_storageTree h with ⟨asked, -, hasked⟩
  refine ⟨asked.map .listing, hasked, fun r hr => ?_⟩
  rcases List.mem_map.1 hr with ⟨under, -, rfl⟩
  rfl

namespace Environment

/-- What a rebuild comes to, and what has then gone to and fro: no tree where the provider refused,
    the storage tree where that has no readable place for the repository, and else the storage tree
    with the repository in it. -/
inductive Builds (env : Environment) : Option Dir → Traffic → Prop where
  | unlisted {fault : Fault} {traffic : Traffic}
      (refused : env.content.storageTree env.traffic = some (.error fault, traffic)) :
      env.Builds none traffic
  | bare {storage : Dir} {traffic : Traffic}
      (listed : env.content.storageTree env.traffic = some (.ok storage, traffic))
      (noPlace :
        storage.dirAt? (Path.normalize env.cwd env.home "~/repositories").segments = none) :
      env.Builds (some storage) traffic
  | unwalked {storage place : Dir} {fault : Fault} {traffic traffic' : Traffic}
      (listed : env.content.storageTree env.traffic = some (.ok storage, traffic))
      (hasPlace : storage.dirAt? (Path.normalize env.cwd env.home "~/repositories").segments =
        some place)
      (refused : env.content.ask (.repositoryTree env.config.user env.config.repo) traffic =
        (.error fault, traffic')) :
      env.Builds none traffic'
  | grafted {storage place repo : Dir} {traffic traffic' : Traffic}
      (listed : env.content.storageTree env.traffic = some (.ok storage, traffic))
      (hasPlace : storage.dirAt? (Path.normalize env.cwd env.home "~/repositories").segments =
        some place)
      (walked : env.content.ask (.repositoryTree env.config.user env.config.repo) traffic =
        (.ok repo, traffic')) :
      env.Builds (some (storage.graft repo env.home env.config.repo)) traffic'

/-- `tree` is what a rebuild assembles: the storage tree, with the repository written into the
    `repositories` directory of the home directory if there is a readable one. -/
inductive Assembles (env : Environment) : Dir → Traffic → Prop where
  | bare {storage : Dir} {traffic : Traffic}
      (listed : env.content.storageTree env.traffic = some (.ok storage, traffic))
      (noPlace : storage.dirAt? env.home.repositories.segments = none) :
      env.Assembles storage traffic
  | grafted {storage place repo : Dir} {traffic traffic' : Traffic}
      (listed : env.content.storageTree env.traffic = some (.ok storage, traffic))
      (hasPlace : storage.dirAt? env.home.repositories.segments = some place)
      (walked : env.content.ask (.repositoryTree env.config.user env.config.repo) traffic =
        (.ok repo, traffic')) :
      env.Assembles (storage.update (·.insert env.config.repo (.dir repo))
        env.home.repositories.segments).1 traffic'

/-- A rebuild whose listings end comes to something: each answer of the provider decides how it goes
    on. -/
theorem exists_builds {env : Environment} (hends : env.content.storageTree env.traffic ≠ none) :
    ∃ result traffic, env.Builds result traffic := by
  rcases Option.ne_none_iff_exists'.1 hends with ⟨⟨fault | storage, traffic⟩, hlist⟩
  · exact ⟨none, traffic, .unlisted hlist⟩
  · rcases hplace : storage.dirAt? (Path.normalize env.cwd env.home "~/repositories").segments with
      _ | place
    · exact ⟨some storage, traffic, .bare hlist hplace⟩
    · rcases hwalk : env.content.ask (.repositoryTree env.config.user env.config.repo) traffic with
        ⟨fault | repo, traffic'⟩
      · exact ⟨none, traffic', .unwalked hlist hplace hwalk⟩
      · exact ⟨_, traffic', .grafted hlist hplace hwalk⟩

/-- Where the listings never end, nothing is built and nothing refused. -/
theorem outcome_rebuilt_endless {env : Environment}
    (h : env.content.storageTree env.traffic = none) :
    Account.rebuilt.outcome env = (.ok none, env) := by
  unfold Account.rebuilt
  simp only [CommandM.outcome_bind, CommandM.outcome_get]
  rw [h]
  rfl

/-- The command comes to what `Builds` says, and changes nothing but the traffic. -/
theorem Builds.outcome {env : Environment} {result : Option Dir} {traffic : Traffic}
    (h : env.Builds result traffic) : Account.rebuilt.outcome env =
      (match result with
        | some tree => .ok (some tree)
        | none => .error ⟨Account.name, .failed⟩, { env with traffic }) := by
  unfold Account.rebuilt
  simp only [CommandM.outcome_bind, CommandM.outcome_get]
  cases h with
  | unlisted refused =>
      rw [refused]
      simp only [CommandM.outcome_bind, CommandM.outcome_demand]
      rfl
  | bare listed noPlace =>
      rw [listed]
      simp only [CommandM.outcome_bind, CommandM.outcome_demand, CommandM.mapError_ok]
      split
      · -- A readable directory would have been a place.
        rename_i entries hnode
        rw [Dir.dirAt?_eq_some_iff.2 hnode] at noPlace
        cases noPlace
      · rfl
  | unwalked listed hasPlace refused =>
      rw [listed]
      simp only [CommandM.outcome_bind, CommandM.outcome_demand, CommandM.mapError_ok, Dir.resolve,
        Dir.dirAt?_eq_some_iff.1 hasPlace]
      rw [refused]
      rfl
  | grafted listed hasPlace walked =>
      rw [listed]
      simp only [CommandM.outcome_bind, CommandM.outcome_demand, CommandM.mapError_ok, Dir.resolve,
        Dir.dirAt?_eq_some_iff.1 hasPlace]
      rw [walked]
      rfl

/-- So it ends in one way only. -/
theorem Builds.unique {env : Environment} {result result' : Option Dir} {traffic traffic' : Traffic}
    (h : env.Builds result traffic) (h' : env.Builds result' traffic') :
    result = result' ∧ traffic = traffic' := by
  -- Both describe the same run of the command, which has one result and one environment.
  have hsame := h.outcome.symm.trans h'.outcome
  rw [Prod.mk.injEq] at hsame
  refine ⟨?_, congrArg Environment.traffic hsame.2⟩
  cases result with
  | none =>
      cases result' with
      | none => rfl
      | some tree' => cases hsame.1
  | some tree =>
      cases result' with
      | none => cases hsame.1
      | some tree' => exact Except.ok.inj hsame.1

/-- A rebuild asks for no contents, however it ends. -/
theorem Builds.lists {env : Environment} {result : Option Dir} {traffic : Traffic}
    (h : env.Builds result traffic) : env.traffic.Lists traffic := by
  cases h with
  | unlisted refused => exact Content.lists_of_storageTree refused
  | bare listed noPlace => exact Content.lists_of_storageTree listed
  | unwalked listed hasPlace refused =>
      have hlisted := Content.lists_of_storageTree listed
      exact hlisted.trans (Content.lists_of_ask rfl refused)
  | grafted listed hasPlace walked =>
      have hlisted := Content.lists_of_storageTree listed
      exact hlisted.trans (Content.lists_of_ask rfl walked)

section Place

variable {env : Environment} (hhome : env.home.Ordinary)

include hhome

/-- Typing the place's path comes to the place. -/
theorem normalize_repositories :
    Path.normalize env.cwd env.home "~/repositories" = env.home.repositories := by
  have htyped : "~/repositories" = "~/" ++ Path.joined ["repositories"] := by decide
  rw [htyped]
  exact Path.normalize_belowHome hhome (List.cons_ne_nil _ _) (by decide) env.cwd

theorem graft_eq_update {storage place : Dir}
    (h : storage.dirAt? env.home.repositories.segments = some place) (repo : Dir) (name : String) :
    storage.graft repo env.home name =
      (storage.update (·.insert name (.dir repo)) env.home.repositories.segments).1 := by
  rw [Dir.graft_of_dirAt? hhome h, Dir.update_eq_replaceAt h]

/-- Where the home directory can be typed, a rebuild comes to the tree that it assembles. -/
theorem builds_some_iff {tree : Dir} {traffic : Traffic} :
    env.Builds (some tree) traffic ↔ env.Assembles tree traffic := by
  -- Both look for the same directory, one of them by typing its path.
  have hplace := normalize_repositories hhome
  constructor
  · intro h
    cases h with
    | bare listed noPlace => exact .bare listed (hplace ▸ noPlace)
    | grafted listed hasPlace walked =>
        rw [hplace] at hasPlace
        rw [graft_eq_update hhome hasPlace]
        exact .grafted listed hasPlace walked
  · intro h
    cases h with
    | bare listed noPlace => exact .bare listed (hplace ▸ noPlace)
    | grafted listed hasPlace walked =>
        rw [← graft_eq_update hhome hasPlace]
        exact .grafted listed (hplace ▸ hasPlace) walked

end Place

/-- Without an administrator nothing is rebuilt. -/
theorem outcome_reset_refused {env : Environment} (h : ¬env.accounts.AdminSignedIn) :
    Account.reset.outcome env = (.error ⟨Account.name, .failed⟩, env) := by
  rw [Accounts.adminSignedIn_iff] at h
  simp only [Account.reset, CommandM.outcome_bind, CommandM.outcome_get]
  rw [if_neg h]
  rfl

section Admin

variable {env : Environment} (hadmin : env.accounts.AdminSignedIn)

include hadmin

/-- With one, the command never comes back where the listings never end. -/
theorem outcome_reset_endless (h : env.content.storageTree env.traffic = none) :
    Account.reset.outcome env = (.ok .never, env) := by
  rw [Accounts.adminSignedIn_iff] at hadmin
  simp only [Account.reset, CommandM.outcome_bind, CommandM.outcome_get]
  rw [if_pos hadmin, CommandM.outcome_bind, outcome_rebuilt_endless h]
  rfl

/-- It fails where nothing could be built. -/
theorem outcome_reset_unbuilt {traffic : Traffic} (h : env.Builds none traffic) :
    Account.reset.outcome env = (.error ⟨Account.name, .failed⟩, { env with traffic }) := by
  rw [Accounts.adminSignedIn_iff] at hadmin
  simp only [Account.reset, CommandM.outcome_bind, CommandM.outcome_get]
  rw [if_pos hadmin, CommandM.outcome_bind, h.outcome]

/-- What was built replaces the tree at once, and is saved after that. -/
theorem outcome_reset_built {tree : Dir} {traffic : Traffic} (h : env.Builds (some tree) traffic) :
    Account.reset.outcome env =
      (((env.store.save tree.snapshot).1.map fun _ =>
          .text (Account.say "Directory tree has been updated.")).mapError
            fun _ => ⟨Account.name, .failed⟩,
        { env with traffic, tree, store := (env.store.save tree.snapshot).2 }) := by
  rw [Accounts.adminSignedIn_iff] at hadmin
  simp only [Account.reset, CommandM.outcome_bind, CommandM.outcome_get]
  rw [if_pos hadmin, CommandM.outcome_bind, h.outcome]
  simp only [Account.install, CommandM.outcome_bind, CommandM.outcome_modifyGet]
  -- The tree has been swapped by now, whatever the store answers.
  rcases (env.store.save tree.snapshot).1 with fault | _
  · rfl
  · rfl

end Admin

/-- The account command prints what signing in or out says, and leaves what that leaves. -/
theorem outcome_say (env : Environment) (part : CommandM String) :
    (part >>= fun message => (pure (.text message) : CommandM Output)).outcome env =
      ((part.outcome env).1.map .text, (part.outcome env).2) := by
  rw [CommandM.outcome_bind]
  rcases part.outcome env with ⟨_ | _, _⟩
  · rfl
  · rfl

/-- The words `taso-cli reset` run the rebuild. -/
theorem dispatch_reset (env : Environment) :
    Registry.builtin.dispatch ["taso-cli", "reset"] env =
      (.ofResult (Account.reset.outcome env).1, (Account.reset.outcome env).2) :=
  Registry.dispatch_accepted (c := .account) rfl rfl env

end Environment

end TreeShell
