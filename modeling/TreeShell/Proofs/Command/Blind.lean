import TreeShell.Backend.Memory
import TreeShell.Proofs.Command.Ending

/-!
# What Commands Do Not Look At

A command gets the whole shell, but hardly any looks at the lines before it, and none at the
requests that were made. Where the provider answers every request as if it were the first, two
environments that differ only in these two parts cannot be told apart: words print the same in both,
and leave two environments that again differ only there. The one exception is `history`, which
prints the lines before it and changes nothing.

That two runs agree is a statement about the program text and cannot be read off what a run leaves
behind. So it is proved along the steps of a run: `CommandM.Blind` says it of any run, there is one
lemma for each kind of step, and a command is blind because its steps are.

## Main definitions

* `Content.Steady`: The answers of a provider do not depend on earlier requests.
* `Environment.Alike`: Only the history and the traffic differ.
* `CommandM.Blind`: A run comes to the same from environments that are alike.

## Theorems

* `Content.Steady.storageTree`: The tree of a steady provider does not depend on earlier requests.
* `CommandM.Blind.bind`, `CommandM.blind_look`, `CommandM.blind_demand`, `CommandM.blind_account`:
  The steps of a run.
* `Environment.alike_dispatch`: Words print the same in environments that are alike.
-/

namespace TreeShell

/-- The answers of a provider do not depend on what it was asked before. -/
def Content.Steady (c : Content) : Prop := ∀ past past' r, c.answer past r = c.answer past' r

theorem MemoryContent.steady_provider (m : MemoryContent) : m.provider.Steady := fun _ _ _ => rfl

namespace Content.Steady

variable {c : Content} (h : c.Steady)

include h

theorem refusing (refusal : Request → Option Fault) : (c.refusing refusal).Steady := by
  intro past past' r
  unfold Content.refusing
  dsimp only
  cases refusal r with
  | some fault => rfl
  | none => exact h past past' r

theorem ask (r : Request) (t t' : Traffic) : (c.ask r t).1 = (c.ask r t').1 :=
  h t.requests t'.requests r

theorem storageTree (t t' : Traffic) :
    (c.storageTree t).map Prod.fst = (c.storageTree t').map Prod.fst := by
  rw [storageTree_eq_grow, storageTree_eq_grow]
  refine grow_answer (fun under t t' => ?_) t'
  exact congrArg (Except.map _) (h.ask (.listing under) t t')

end Content.Steady

/-- The environments differ in nothing but the lines and the requests before them, and the provider
    is steady. -/
structure Environment.Alike (env env' : Environment) : Prop where
  steady : env.content.Steady
  same : ∃ history traffic, env' = { env with history, traffic }

namespace CommandM

/-- From environments that are alike a run comes to the same, and leaves two that are alike. -/
def Blind {α : Type} (m : CommandM α) : Prop :=
  ∀ env env', Environment.Alike env env' →
    (m.outcome env').1 = (m.outcome env).1 ∧ (m.outcome env).2.Alike (m.outcome env').2

section Steps

variable {α β : Type}

/-- A run that leaves the environment alone, and does not look at it. -/
theorem blind_of_const {m : CommandM α} {result : Except CommandError α}
    (h : ∀ env, m.outcome env = (result, env)) : m.Blind := by
  intro env env' halike
  rw [h, h]
  exact ⟨rfl, halike⟩

theorem blind_pure (a : α) : (pure a : CommandM α).Blind := blind_of_const (outcome_pure a)

theorem blind_complain (command : String) (complaint : Complaint) :
    (complain command complaint : CommandM α).Blind :=
  blind_of_const (outcome_complain command complaint)

theorem blind_liftM (e : Except CommandError α) : (liftM e : CommandM α).Blind :=
  blind_of_const (outcome_liftM e)

theorem Blind.bind {m : CommandM α} {f : α → CommandM β} (hm : m.Blind) (hf : ∀ a, (f a).Blind) :
    (m >>= f).Blind := by
  intro env env' halike
  have hfirst := hm env env' halike
  rw [outcome_bind, outcome_bind]
  generalize m.outcome env = first at hfirst ⊢
  generalize m.outcome env' = second at hfirst ⊢
  rcases first with ⟨result, after⟩
  rcases second with ⟨result', after'⟩
  obtain rfl : result' = result := hfirst.1
  cases result' with
  | error e => exact ⟨rfl, hfirst.2⟩
  | ok a => exact hf a after after' hfirst.2

/-- A run that looks at the environment, but at neither of the two parts. -/
theorem blind_look {f : Environment → CommandM β}
    (hsame : ∀ env history traffic, f { env with history, traffic } = f env)
    (hf : ∀ env, env.content.Steady → (f env).Blind) : (get >>= f).Blind := by
  intro env env' halike
  rcases halike.same with ⟨history, traffic, rfl⟩
  rw [outcome_bind, outcome_bind, outcome_get, outcome_get]
  simp only [hsame]
  exact hf env halike.steady env _ halike

/-- A change that looks at neither of the two parts, and changes neither. -/
theorem blind_modifyGet {f : Environment → α × Environment}
    (hsame : ∀ env history traffic,
      f { env with history, traffic } = ((f env).1, { (f env).2 with history, traffic }))
    (hcontent : ∀ env, (f env).2.content = env.content) : (modifyGet f : CommandM α).Blind := by
  intro env env' halike
  rcases halike.same with ⟨history, traffic, rfl⟩
  rw [outcome_modifyGet, outcome_modifyGet, hsame]
  refine ⟨rfl, ?_, history, traffic, rfl⟩
  rw [hcontent]
  exact halike.steady

theorem blind_modify {f : Environment → Environment}
    (hsame : ∀ env history traffic,
      f { env with history, traffic } = { f env with history, traffic })
    (hcontent : ∀ env, (f env).content = env.content) :
    (modify f : CommandM PUnit).Blind :=
  blind_modifyGet (fun env history traffic => congrArg _ (hsame env history traffic)) hcontent

/-- Requests to a steady provider. -/
theorem blind_demand (command : String) {requests : Asking Traffic α}
    (h : ∀ t t', (requests t).1 = (requests t').1) : (demand command requests).Blind := by
  intro env env' halike
  rcases halike.same with ⟨history, traffic, rfl⟩
  rw [outcome_demand, outcome_demand]
  exact ⟨congrArg (Except.mapError _) (h _ _), halike.steady, history, _, rfl⟩

theorem blind_account (command : String) (use : Accounts → Except Fault α × Accounts) :
    (account command use).Blind := by
  intro env env' halike
  rcases halike.same with ⟨history, traffic, rfl⟩
  rw [outcome_account, outcome_account]
  exact ⟨rfl, halike.steady, history, traffic, rfl⟩

theorem blind_locate (input : String) : (locate input).Blind :=
  blind_look (fun _ _ _ => rfl) fun _ _ => blind_pure _

end Steps

end CommandM

open CommandM

namespace Command

theorem blind_cd (args : List String) : (cd.run args).Blind := by
  cases args with
  | nil => exact .bind (blind_modify (fun _ _ _ => rfl) fun _ => rfl) fun _ => blind_pure _
  | cons target rest =>
      refine .bind (blind_locate target) fun found => ?_
      refine .bind (blind_liftM _) fun _ => ?_
      exact .bind (blind_modify (fun _ _ _ => rfl) fun _ => rfl) fun _ => blind_pure _

theorem blind_pwd (args : List String) : (pwd.run args).Blind :=
  blind_look (fun _ _ _ => rfl) fun _ _ => blind_pure _

theorem blind_ls (args : List String) : (ls.run args).Blind := by
  simp only [ls]
  split
  · exact blind_complain _ _
  · split
    · exact blind_complain _ _
    · refine blind_look (fun _ _ _ => rfl) fun env _ => ?_
      refine .bind (blind_locate _) fun found => ?_
      split
      · exact blind_pure _
      · exact .bind (blind_liftM _) fun _ => blind_pure _

theorem blind_date (args : List String) : (date.run args).Blind :=
  blind_look (fun _ _ _ => rfl) fun _ _ => blind_pure _

theorem blind_readable (command target : String) (named : Bool) :
    (readable command target named).Blind := by
  refine .bind (blind_locate target) fun found => ?_
  exact .bind (blind_liftM _) fun _ => blind_pure _

theorem blind_cat (args : List String) : (cat.run args).Blind := by
  refine .bind (blind_readable _ _ _) fun path => ?_
  refine blind_look (fun _ _ _ => rfl) fun env hsteady => ?_
  exact .bind (blind_demand _ (hsteady.ask _)) fun _ => blind_pure _

theorem blind_imgcat (args : List String) : (imgcat.run args).Blind := by
  refine .bind (blind_readable _ _ _) fun path => ?_
  refine blind_look (fun _ _ _ => rfl) fun env hsteady => ?_
  split
  · refine .bind (blind_demand _ (hsteady.ask _)) fun image => ?_
    exact blind_modifyGet (fun _ _ _ => rfl) fun _ => rfl
  · exact blind_complain _ _

theorem blind_openLink (args : List String) : (openLink.run args).Blind := by
  refine .bind (blind_readable _ _ _) fun path => ?_
  refine blind_look (fun _ _ _ => rfl) fun env hsteady => ?_
  split
  · refine .bind (blind_demand _ (hsteady.ask _)) fun text => ?_
    dsimp only
    split
    · exact blind_complain _ _
    · exact blind_pure _
  · exact blind_complain _ _

theorem blind_clear (args : List String) : (clear.run args).Blind := blind_pure _

theorem blind_share (args : List String) : (share.run args).Blind := by
  cases args with
  | nil => exact blind_look (fun _ _ _ => rfl) fun _ _ => blind_pure _
  | cons target rest =>
      refine .bind (blind_locate target) fun found => ?_
      split
      · exact blind_complain _ _
      · exact blind_look (fun _ _ _ => rfl) fun _ _ => blind_pure _

end Command

namespace Account

theorem blind_login (options : List String) : (login options).Blind := by
  refine blind_look (fun _ _ _ => rfl) fun env _ => ?_
  split
  · exact blind_pure _
  · split
    · exact .bind (blind_account _ _) fun _ => blind_pure _
    · exact blind_complain _ _
    · refine .bind (blind_modifyGet (fun _ _ _ => rfl) fun _ => rfl) fun token => ?_
      refine blind_look (fun _ _ _ => rfl) fun env _ => ?_
      exact .bind (blind_account _ _) fun _ => blind_pure _
    · exact blind_complain _ _

theorem blind_logout : logout.Blind := by
  refine blind_look (fun _ _ _ => rfl) fun env _ => ?_
  split
  · exact blind_pure _
  · exact .bind (blind_account _ _) fun _ => blind_pure _

/-- The traffic is looked at for the listings only, and a steady provider has the same for both. -/
theorem blind_rebuilt : rebuilt.Blind := by
  intro env env' halike
  rcases halike.same with ⟨history, traffic, rfl⟩
  have hgrown := halike.steady.storageTree env.traffic traffic
  simp only [rebuilt, outcome_bind, outcome_get]
  rcases hlist : env.content.storageTree env.traffic with _ | ⟨result, t⟩
  · rw [hlist, Option.map_none] at hgrown
    rw [Option.map_eq_none_iff.1 hgrown.symm]
    exact ⟨rfl, halike⟩
  · rw [hlist, Option.map_some] at hgrown
    rcases Option.map_eq_some_iff.1 hgrown.symm with ⟨⟨result', t'⟩, hgrown', rfl⟩
    rw [hgrown']
    have hlater : Environment.Alike { env with traffic := t }
        { env with history, traffic := t' } := ⟨halike.steady, history, t', rfl⟩
    simp only [outcome_bind, outcome_demand]
    cases result' with
    | error fault => exact ⟨rfl, hlater⟩
    | ok storage =>
        simp only [mapError_ok]
        split
        · have hwalk := blind_demand name (halike.steady.ask
            (.repositoryTree env.config.user env.config.repo))
          exact (hwalk.bind fun _ => blind_pure _) _ _ hlater
        · exact ⟨rfl, hlater⟩

theorem blind_install (tree : Dir) : (install tree).Blind := by
  refine .bind (blind_modifyGet (fun _ _ _ => rfl) fun _ => rfl) fun outcome => ?_
  split
  · exact blind_pure _
  · exact blind_complain _ _

theorem blind_reset : reset.Blind := by
  refine blind_look (fun _ _ _ => rfl) fun env _ => ?_
  dsimp only
  split
  · refine .bind blind_rebuilt fun built => ?_
    cases built with
    | none => exact blind_pure _
    | some tree => exact blind_install tree
  · exact blind_complain _ _

end Account

theorem Command.blind_account (args : List String) : (account.run args).Blind := by
  simp only [account]
  split
  · exact blind_complain _ _
  · exact .bind (Account.blind_login _) fun _ => blind_pure _
  · exact .bind Account.blind_logout fun _ => blind_pure _
  · exact Account.blind_reset
  · exact blind_complain _ _
  · exact blind_complain _ _
  · exact blind_complain _ _

/-- All commands but one are blind. -/
theorem Command.blind_of_mem {c : Command} (h : c ∈ builtins) (hname : c.name ≠ "history")
    (args : List String) : (c.run args).Blind := by
  simp only [builtins, List.mem_cons, List.not_mem_nil, or_false] at h
  rcases h with rfl | rfl | rfl | rfl | rfl | rfl | rfl | rfl | rfl | rfl | rfl
  · exact blind_cd args
  · exact blind_pwd args
  · exact blind_ls args
  · exact blind_date args
  · exact blind_cat args
  · exact blind_imgcat args
  · exact absurd rfl hname
  · exact blind_clear args
  · exact blind_openLink args
  · exact blind_share args
  · exact blind_account args

/-- The one that is left takes no arguments. -/
theorem Command.args_of_history {c : Command} (h : c ∈ builtins) (hname : c.name = "history")
    {args : List String} (hgate : c.refusal? args = none) : args = [] := by
  have hmax : ∀ c ∈ builtins, c.name = "history" → c.maxArgs = 0 := by decide
  have hle := (refusal?_eq_none_iff.1 hgate).2.1
  rw [hmax c h hname] at hle
  exact List.length_eq_zero_iff.1 (Nat.le_zero.1 hle)

namespace Environment

/-- The lines before it are printed by one command only, which changes nothing. -/
theorem dispatch_history (env : Environment) : Registry.builtin.dispatch ["history"] env =
    (.history (History.recent env.history env.config.historyLimit), env) := rfl

/-- Words print the same in environments that are alike, and leave two that are alike. -/
theorem alike_dispatch {env env' : Environment} (h : env.Alike env') (argv : List String) :
    (argv ≠ ["history"] →
      (Registry.builtin.dispatch argv env').1 = (Registry.builtin.dispatch argv env).1) ∧
    (Registry.builtin.dispatch argv env).2.Alike (Registry.builtin.dispatch argv env').2 := by
  by_cases hhistory : argv = ["history"]
  · -- Here the outputs may differ, and nothing is claimed of them.
    rw [hhistory, dispatch_history, dispatch_history]
    exact ⟨fun hne => absurd rfl hne, h⟩
  · rw [Registry.dispatch_eq, Registry.dispatch_eq]
    have hresult : (Registry.builtin.result argv env').1 = (Registry.builtin.result argv env).1 ∧
        (Registry.builtin.result argv env).2.Alike (Registry.builtin.result argv env').2 := by
      cases argv with
      | nil => exact ⟨rfl, h⟩
      | cons name args =>
          rw [Registry.result, Registry.result]
          cases hfind : Registry.builtin.find? name with
          | none => exact ⟨rfl, h⟩
          | some command =>
              cases hgate : command.refusal? args with
              | some complaint =>
                  simp only [hgate]
                  exact ⟨trivial, h⟩
              | none =>
                  simp only [hgate]
                  rcases Registry.mem_builtins_of_find? hfind with ⟨hmem, rfl⟩
                  refine Command.blind_of_mem hmem (fun hname => hhistory ?_) args env env' h
                  rw [hname, Command.args_of_history hmem hname hgate]
    exact ⟨fun _ => congrArg Output.ofResult hresult.1, hresult.2⟩

end Environment

end TreeShell
