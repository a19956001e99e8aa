import DatastorQos.App.Accounting
import DatastorQos.Protocol.Cluster

/-!
# datastor_qos — a dispatcher and the managers of its apps

The dispatcher as in a `Cluster`, and for each app a whole manager: its groups,
its caches and all its nodes. Only the messages of this one dispatcher, which
every app knows as `d`, come over a network; what else a manager is told, and
what its application asks for, is anything at all.

* `deployment_refines_cluster` — the base nodes of `d` see a run of a cluster, a
  row of steps for each step;
* `holds_within_quota` — what the groups of an app hold of the dispatcher is no
  more than its node there has;
* `holds_within_total` — and what all of them hold, with what is free and in
  reserve, is no more than there is.

The demand is bounded: what the groups of an app ask for adds up to a word, and
no fence is handed out twice.
-/

namespace DatastorQos

open Runs Apportion Relation Keyed GrpHeap

variable {Id DispId τ : Type} {ops : IdOps Id} {opsD : IdOps DispId}

/-- The dispatcher, the manager of each app, and the network to it. -/
structure Deployment (ops : IdOps Id) (opsD : IdOps DispId) (τ : Type) where
  disp : DispManager ops
  app  : Id → AppState opsD
  net  : Id → τ

/-- Who moves: the dispatcher, the network, or the manager of one app. -/
inductive DeploymentAct (Id DispId : Type) where
  | dispatcher (a : DispSection Id)
  | allocTokens (id : Id) (cost : ULong)
  | freeTokens (id : Id) (cost fenceId : ULong)
  | announce (id : Id)
  /-- `rcvd` of the app -/
  | deliver (id : Id) (dta : Dispatch2App) (seen : Seen)
  | app (id : Id) (a : AppAct DispId)

/-- Messages of dispatcher `d` come over the network. -/
def ManagerCall.Elsewhere (opsD : IdOps DispId) (d : DispId) : ManagerCall DispId → Prop
  | .rcvd id _ => ¬ opsD.Same id d
  | _ => True

namespace Deployment

/-- One step, by the rules of the dispatcher or of the manager. -/
def Step (N : Network τ Dispatch2App) (d : DispId) (s : Deployment ops opsD τ) :
    DeploymentAct Id DispId → Deployment ops opsD τ → Prop
  | .dispatcher a, s' => s.disp.SectionStep a s'.disp ∧ s'.app = s.app ∧ s'.net = s.net
  | .allocTokens id cost, s' =>
    s.disp.allocSection id cost = some s'.disp ∧ s'.app = s.app ∧ s'.net = s.net
  | .freeTokens id cost fenceId, s' =>
    s.disp.freeSection id cost fenceId = some s'.disp ∧ s'.app = s.app ∧ s'.net = s.net
  | .announce id, s' => ∃ node t, s.disp.onlineNode? id = some node ∧
    N.send (s.net id) node.getProtocol t ∧ s' = { s with net := ops.set s.net id t }
  | .deliver id dta seen, s' => ∃ t u, N.deliver (s.net id) dta t ∧
    (managerSystem opsD).step (s.app id) ⟨.rcvd d dta, seen⟩ u ∧
      s' = { s with app := ops.set s.app id u, net := ops.set s.net id t }
  | .app id a, s' => a.call.Elsewhere opsD d ∧ ∃ u, (managerSystem opsD).step (s.app id) a u ∧
    s' = { s with app := ops.set s.app id u }

/-- The cluster of the base nodes of `d`. -/
def cluster (d : DispId) (s : Deployment ops opsD τ) : Cluster ops τ :=
  ⟨s.disp, fun id => (s.app id).manager.base d, s.net⟩

end Deployment

/-- From a new dispatcher and new managers, any number of them, with nothing on
the network. -/
def deploymentSystem (ops : IdOps Id) (opsD : IdOps DispId) (N : Network τ Dispatch2App)
    (minUnits : ULong) (d : DispId) : System (Deployment ops opsD τ) (DeploymentAct Id DispId) where
  init s := (∃ tableLen maxNodeNum updateInterval h,
      s.disp = .init ops tableLen maxNodeNum updateInterval minUnits h) ∧
    (∀ id, (managerSystem opsD).init (s.app id)) ∧
    (∀ a b, ops.Same a b → s.app a = s.app b) ∧ ∀ id, s.net id = N.empty
  step := Deployment.Step N d

abbrev DeploymentTransition (ops : IdOps Id) (opsD : IdOps DispId) (τ : Type) :=
  Transition (Deployment ops opsD τ) (DeploymentAct Id DispId)

/-- What an app does to its base node by itself. -/
def ClusterAct.IsCallOf (id : Id) : ClusterAct Id → Prop
  | .app x _ => x = id
  | .reconnect x => x = id
  | _ => False

/-- The row of steps that this step is to the cluster. -/
def DeploymentTransition.ShowsAs (d : DispId) (x : DeploymentTransition ops opsD τ)
    (row : List (ClusterAct Id)) : Prop :=
  match x.act with
  | .dispatcher a => row = [.dispatcher a]
  | .allocTokens id cost => row = [.allocTokens id cost]
  | .freeTokens id cost fenceId => row = [.freeTokens id cost fenceId]
  | .announce id => row = [.announce id]
  | .deliver id dta _ =>
    -- without a node the message is not looked at
    (x.pre.app id).manager.node? d = none ∧ row = [.missed id dta] ∨
      ((x.pre.app id).manager.node? d).isSome ∧
        ∃ calls, row = .deliver id dta :: calls ∧ ∀ c ∈ calls, c.IsCallOf id
  | .app id _ => ∀ c ∈ row, c.IsCallOf id

/-- No manager runs out of fences, and what its groups ask for is a word. -/
def DeploymentTransition.Modest (x : DeploymentTransition ops opsD τ) : Prop :=
  (∀ id, (x.post.app id).manager.version ≤ 2 ^ 32) ∧
    match x.act with
    | .app id a => AppTransition.Modest ⟨x.pre.app id, a, x.post.app id⟩
    | _ => True

/-- The sections of the dispatcher conserve its tokens. -/
def DeploymentTransition.Conserves (x : DeploymentTransition ops opsD τ) : Prop :=
  match x.act with
  | .dispatcher a => a.Keeps x.pre.disp
  | _ => True

/-- What the groups of a manager hold of a node that is online. -/
def Manager.holds (m : Manager opsD) (d : DispId) : ℕ :=
  match m.node? d with
  | some n =>
    total (fun r => r.tokenNeed.cost)
      (m.groups.reqs.filter fun r => r.stat = .got ∧ r.nodeid = n.fenceId)
  | none => 0

/-- They are what is in use there. -/
theorem Manager.holds_eq {m : Manager opsD} (ha : m.Books True False [] [])
    (hDemand : m.groups.demand < 2 ^ 64) (d : DispId) :
    m.holds d = (m.base d).tokenInuse.toNat := by
  unfold holds
  split
  · rename_i n hn
    have hInuse := ((ha.node d n hn).balanced trivial).inuse
    rw [Manager.base_of_node hn, hInuse, toNat_sum, Nat.mod_eq_of_lt]
    refine Nat.lt_of_le_of_lt (total_le_of_sublist _ List.filter_sublist) ?_
    rw [← demand_eq]
    exact hDemand
  · rename_i hNone
    rw [Manager.base_of_none hNone]
    rfl

namespace Deployment

variable {N : Network τ Dispatch2App} {minUnits : ULong} {d : DispId} {s s' : Deployment ops opsD τ}

-- ---------------------------------------------------------------------------
-- The managers
-- ---------------------------------------------------------------------------

/-- The books of every manager balance, and its groups ask for no more than a word
holds. -/
structure Inv (s : Deployment ops opsD τ) : Prop where
  congr  : ∀ a b, ops.Same a b → s.app a = s.app b ∧ s.net a = s.net b
  app    : ∀ id, (s.app id).Inv True False
  demand : ∀ id, (s.app id).manager.groups.demand < 2 ^ 64

/-- One manager moved. -/
theorem Inv.set_app (hi : s.Inv) (id : Id) {u : AppState opsD} (t : τ) (hu : u.Inv True False)
    (hDemand : u.manager.groups.demand < 2 ^ 64) :
    ({ s with app := ops.set s.app id u, net := ops.set s.net id t } :
      Deployment ops opsD τ).Inv where
  congr a b hSame :=
    ⟨IdOps.set_congr (fun x y h => (hi.congr x y h).1) id u hSame,
      IdOps.set_congr (fun x y h => (hi.congr x y h).2) id t hSame⟩
  app x := by
    show (ops.set s.app id u x).Inv True False
    unfold IdOps.set
    split
    · exact hu
    · exact hi.app x
  demand x := by
    show (ops.set s.app id u x).manager.groups.demand < 2 ^ 64
    unfold IdOps.set
    split
    · exact hDemand
    · exact hi.demand x

/-- New managers have nothing on their books. -/
theorem Inv.init (h : (deploymentSystem ops opsD N minUnits d).init s) : s.Inv := by
  obtain ⟨-, hApp, hSame, hNet⟩ := h
  refine ⟨fun a b hab => ⟨hSame a b hab, by rw [hNet, hNet]⟩, fun id => .init (hApp id),
    fun id => ?_⟩
  rw [(AppState.blank_of_init (hApp id)).1]
  exact Nat.two_pow_pos 64

-- ---------------------------------------------------------------------------
-- Each step is a run of the cluster
-- ---------------------------------------------------------------------------

section Cluster

variable {c : Cluster ops τ}

/-- The calls of an app on its base node are steps of the cluster. -/
theorem run_of_usedTo (N : Network τ Dispatch2App) (minUnits : ULong)
    (hCongr : ∀ a b, ops.Same a b → c.base a = c.base b) {id : Id}
    {b : DispatchBaseNode} (h : (c.base id).UsedTo b) :
    ∃ tr : List (ClusterTransition ops τ),
      Run (clusterSystem ops N minUnits) c tr { c with base := ops.set c.base id b } ∧
        ∀ y ∈ tr, y.act.IsCallOf id ∧ y.WellUsed ∧ Cluster.Conserves y := by
  induction h with
  | refl =>
    rw [IdOps.set_self hCongr id]
    exact ⟨[], .nil, by simp⟩
  | @tail b₁ b₂ _ hLast ih =>
    obtain ⟨tr, hRun, hAll⟩ := ih
    have hAt : ops.set c.base id b₁ id = b₁ := IdOps.set_at c.base id b₁
    cases hLast with
    | own op hOwn hUsed =>
      have hStep : (clusterSystem ops N minUnits).step { c with base := ops.set c.base id b₁ }
          (.app id op) { c with base := ops.set c.base id (b₁.apply op) } := by
        refine ⟨hOwn, ?_⟩
        simp only [hAt, IdOps.set_set]
      refine ⟨_, hRun.snoc hStep, forall_snoc hAll ⟨rfl, ?_, trivial⟩⟩
      show op.WellUsed (ops.set c.base id b₁ id)
      rw [hAt]
      exact hUsed
    | anew =>
      have hStep : (clusterSystem ops N minUnits).step { c with base := ops.set c.base id b₁ }
          (.reconnect id) { c with base := ops.set c.base id .init } := by
        show _ = ({ c with base := ops.set (ops.set c.base id b₁) id .init } : Cluster ops τ)
        rw [IdOps.set_set]
      exact ⟨_, hRun.snoc hStep, forall_snoc hAll ⟨rfl, trivial, trivial⟩⟩

end Cluster

/-- What the cluster does for a step of the deployment. -/
structure Answers (N : Network τ Dispatch2App) (minUnits : ULong) (d : DispId)
    (x : DeploymentTransition ops opsD τ) (row : List (ClusterTransition ops τ)) : Prop where
  run   : Run (clusterSystem ops N minUnits) (x.pre.cluster d) row (x.post.cluster d)
  acts  : x.ShowsAs d (row.map Transition.act)
  used  : ∀ y ∈ row, y.WellUsed
  keeps : x.Conserves → ∀ y ∈ row, Cluster.Conserves y

/-- A step that is one step of the cluster. -/
theorem Answers.single {x : DeploymentTransition ops opsD τ} (a : ClusterAct Id)
    (hStep : (clusterSystem ops N minUnits).step (x.pre.cluster d) a (x.post.cluster d))
    (hActs : x.ShowsAs d [a])
    (hUsed : ClusterTransition.WellUsed ⟨x.pre.cluster d, a, x.post.cluster d⟩)
    (hKeeps : x.Conserves → Cluster.Conserves ⟨x.pre.cluster d, a, x.post.cluster d⟩) :
    ∃ row, Answers N minUnits d x row :=
  ⟨_, .single hStep, hActs, List.forall_mem_singleton.mpr hUsed,
    fun h => List.forall_mem_singleton.mpr (hKeeps h)⟩

/-- Moving one manager writes one base node. -/
theorem cluster_set_app (s : Deployment ops opsD τ) (id : Id) (u : AppState opsD) (net : Id → τ) :
    ({ s with app := ops.set s.app id u, net := net } : Deployment ops opsD τ).cluster d =
      ⟨s.disp, ops.set (s.cluster d).base id (u.manager.base d), net⟩ := by
  unfold cluster
  simp only
  rw [IdOps.map_set fun v : AppState opsD => v.manager.base d]

/-- Ids that are the same are one app. -/
theorem Inv.base_congr (hi : s.Inv) (d : DispId) (a b : Id) (hSame : ops.Same a b) :
    (s.cluster d).base a = (s.cluster d).base b :=
  congrArg (fun v : AppState opsD => v.manager.base d) (hi.congr a b hSame).1

/-- A message of `d`: first the message, then what the app calls. -/
theorem answered_deliver (hi : s.Inv) {id : Id} {dta : Dispatch2App} {seen : Seen} {t : τ}
    {u : AppState opsD} (hDeliver : N.deliver (s.net id) dta t)
    (hUses : (s.app id).manager.node? d = none ∧ u.manager.base d = .init ∨
      ((s.app id).manager.node? d).isSome ∧
        (((s.app id).manager.base d).rcvd dta).UsedTo (u.manager.base d)) :
    ∃ row, Answers N minUnits d
      ⟨s, .deliver id dta seen, { s with app := ops.set s.app id u, net := ops.set s.net id t }⟩
      row := by
  have hPost := cluster_set_app (d := d) s id u (ops.set s.net id t)
  rcases hUses with ⟨hNone, hInit⟩ | ⟨hThere, hUsed⟩
  · refine Answers.single (.missed id dta) ⟨t, hDeliver, ?_⟩ (Or.inl ⟨hNone, rfl⟩) trivial
      fun _ => trivial
    rw [hPost, hInit]
    rfl
  · let c : Cluster ops τ :=
      ⟨s.disp, ops.set (s.cluster d).base id (((s.app id).manager.base d).rcvd dta),
        ops.set s.net id t⟩
    have hFirst : (clusterSystem ops N minUnits).step (s.cluster d) (.deliver id dta) c :=
      ⟨t, hDeliver, rfl⟩
    have hAt : c.base id = ((s.app id).manager.base d).rcvd dta := IdOps.set_at _ _ _
    obtain ⟨tr, hRun, hAll⟩ := run_of_usedTo (c := c) N minUnits
      (fun a b => IdOps.set_congr (hi.base_congr d) id _) (by rw [hAt]; exact hUsed)
    have hEnd : ({ c with base := ops.set c.base id (u.manager.base d) } : Cluster ops τ) =
        ⟨s.disp, ops.set (s.cluster d).base id (u.manager.base d), ops.set s.net id t⟩ := by
      simp only [c, IdOps.set_set]
    rw [hEnd, ← hPost] at hRun
    refine ⟨_, (Run.single hFirst).append hRun, Or.inr ⟨hThere, tr.map Transition.act, rfl, ?_⟩,
      List.forall_mem_append.mpr ⟨List.forall_mem_singleton.mpr trivial, fun y hy => ?_⟩,
      fun _ => List.forall_mem_append.mpr ⟨List.forall_mem_singleton.mpr trivial, fun y hy => ?_⟩⟩
    · exact List.forall_mem_map.mpr fun y hy => (hAll y hy).1
    · exact (hAll y hy).2.1
    · exact (hAll y hy).2.2

/-- Any other call of a manager. -/
theorem answered_app (hi : s.Inv) {id : Id} (a : AppAct DispId) {u : AppState opsD}
    (hUsed : ((s.app id).manager.base d).UsedTo (u.manager.base d)) :
    ∃ row, Answers N minUnits d ⟨s, .app id a, { s with app := ops.set s.app id u }⟩ row := by
  obtain ⟨tr, hRun, hAll⟩ := run_of_usedTo (c := s.cluster d) N minUnits (hi.base_congr d) hUsed
  refine ⟨tr, ?_, List.forall_mem_map.mpr fun y hy => (hAll y hy).1, fun y hy => (hAll y hy).2.1,
    fun _ y hy => (hAll y hy).2.2⟩
  have hPost := cluster_set_app (d := d) s id u s.net
  rw [hPost]
  exact hRun

/-- A call of a manager keeps its books, and what its groups ask for a word. -/
theorem Inv.app_step (hi : s.Inv) {id : Id} {a : AppAct DispId} {u : AppState opsD}
    (hCall : (managerSystem opsD).step (s.app id) a u) (hVersion : u.manager.version ≤ 2 ^ 32)
    (hModest : AppTransition.Modest ⟨s.app id, a, u⟩) :
    u.Inv True False ∧ u.manager.groups.demand < 2 ^ 64 := by
  refine ⟨(step_effect (hi.app id) hCall (fun _ => hVersion) False.elim).1, ?_⟩
  have hNow : (s.app id).manager.groups.demand + a.call.asks < 2 ^ 64 := hModest
  by_cases hRcvd : ∃ x dta, a.call = .rcvd x dta
  · obtain ⟨x, dta, hCallee⟩ := hRcvd
    have hApply := hCall.2.1
    rw [hCallee] at hApply
    obtain ⟨⟨m₁, callbacks⟩, hRes, heq⟩ := Option.map_eq_some_iff.mp hApply
    have hSame := (rcvd_uses (hi.app id).books hRes (hi.demand id)).1
    rw [← (Prod.mk.inj heq).1, hSame]
    exact hi.demand id
  · have hLe := (step_uses (hi.app id) hCall hVersion hModest
      fun x dta hCallee => hRcvd ⟨x, dta, hCallee⟩).demand
    omega

/-- On the base node of `d` it is calls of the app's own, unless it is a message of
`d`. -/
theorem Inv.app_uses (hi : s.Inv) {id : Id} {a : AppAct DispId} {u : AppState opsD}
    (hCall : (managerSystem opsD).step (s.app id) a u) (hElse : a.call.Elsewhere opsD d)
    (hVersion : u.manager.version ≤ 2 ^ 32) (hModest : AppTransition.Modest ⟨s.app id, a, u⟩) :
    ((s.app id).manager.base d).UsedTo (u.manager.base d) := by
  by_cases hRcvd : ∃ x dta, a.call = .rcvd x dta
  · -- a message of another dispatcher
    obtain ⟨x, dta, hCallee⟩ := hRcvd
    have hApply := hCall.2.1
    rw [hCallee] at hApply hElse
    obtain ⟨⟨m₁, callbacks⟩, hRes, heq⟩ := Option.map_eq_some_iff.mp hApply
    rw [← (Prod.mk.inj heq).1]
    rcases (rcvd_uses (hi.app id).books hRes (hi.demand id)).2 d with
      ⟨hIs, -⟩ | ⟨hIs, -⟩ | ⟨-, hKept⟩
    · exact absurd hIs hElse
    · exact absurd hIs hElse
    · rw [hKept]
      exact .refl _
  · exact (step_uses (hi.app id) hCall hVersion hModest
      fun x dta hCallee => hRcvd ⟨x, dta, hCallee⟩).bases d

/-- **Step lemma.** -/
theorem step_answered {a : DeploymentAct Id DispId} (hi : s.Inv)
    (hStep : (deploymentSystem ops opsD N minUnits d).step s a s')
    (hModest : DeploymentTransition.Modest ⟨s, a, s'⟩) :
    s'.Inv ∧ ∃ row, Answers N minUnits d ⟨s, a, s'⟩ row := by
  obtain ⟨hVersion, hModest⟩ := hModest
  have hSame : s'.app = s.app → s'.net = s.net → s'.Inv := by
    intro hApp hNet
    exact ⟨by rw [hApp, hNet]; exact hi.congr, by rw [hApp]; exact hi.app,
      by rw [hApp]; exact hi.demand⟩
  have hBase : s'.app = s.app → (s'.cluster d).base = (s.cluster d).base := by
    intro hApp
    unfold cluster
    rw [hApp]
  cases a with
  | dispatcher a =>
    obtain ⟨hSection, hApp, hNet⟩ := hStep
    exact ⟨hSame hApp hNet,
      Answers.single (.dispatcher a) ⟨hSection, hBase hApp, hNet⟩ rfl trivial id⟩
  | allocTokens id cost =>
    obtain ⟨hAlloc, hApp, hNet⟩ := hStep
    exact ⟨hSame hApp hNet,
      Answers.single (.allocTokens id cost) ⟨hAlloc, hBase hApp, hNet⟩ rfl trivial fun _ => trivial⟩
  | freeTokens id cost fenceId =>
    obtain ⟨hFree, hApp, hNet⟩ := hStep
    exact ⟨hSame hApp hNet,
      Answers.single (.freeTokens id cost fenceId) ⟨hFree, hBase hApp, hNet⟩ rfl trivial
        fun _ => trivial⟩
  | announce id =>
    obtain ⟨node, t, hNode, hSend, rfl⟩ := hStep
    refine ⟨⟨fun x y h => ⟨(hi.congr x y h).1, ?_⟩, hi.app, hi.demand⟩,
      Answers.single (.announce id) ⟨node, t, hNode, hSend, rfl⟩ rfl trivial fun _ => trivial⟩
    exact IdOps.set_congr (fun x y h => (hi.congr x y h).2) id t h
  | deliver id dta seen =>
    obtain ⟨t, u, hDeliver, hCall, rfl⟩ := hStep
    have hNow : u.manager.version ≤ 2 ^ 32 := by
      have := hVersion id
      rwa [show ({ s with app := ops.set s.app id u, net := ops.set s.net id t } :
        Deployment ops opsD τ).app id = u from IdOps.set_at _ _ _] at this
    obtain ⟨hu, hDemand⟩ := hi.app_step hCall hNow (hi.demand id)
    refine ⟨hi.set_app id t hu hDemand, answered_deliver hi hDeliver ?_⟩
    obtain ⟨⟨m₁, callbacks⟩, hRes, heq⟩ := Option.map_eq_some_iff.mp hCall.2.1
    rw [← (Prod.mk.inj heq).1]
    rcases (rcvd_uses (hi.app id).books hRes (hi.demand id)).2 d with
      ⟨-, hNone, hInit⟩ | ⟨-, hThere, hUsed⟩ | ⟨hNot, -⟩
    · exact Or.inl ⟨hNone, hInit⟩
    · exact Or.inr ⟨hThere, hUsed⟩
    · exact absurd (opsD.same_refl d) hNot
  | app id a =>
    obtain ⟨hElse, u, hCall, rfl⟩ := hStep
    have hAt : ({ s with app := ops.set s.app id u } : Deployment ops opsD τ).app id = u :=
      IdOps.set_at _ _ _
    have hNow : u.manager.version ≤ 2 ^ 32 := by
      have := hVersion id
      rwa [hAt] at this
    have hModest : AppTransition.Modest ⟨s.app id, a, u⟩ := hModest
    obtain ⟨hu, hDemand⟩ := hi.app_step hCall hNow hModest
    have hNet : ops.set s.net id (s.net id) = s.net :=
      IdOps.set_self (fun x y h => (hi.congr x y h).2) id
    have hInv := hi.set_app id (s.net id) hu hDemand
    rw [hNet] at hInv
    exact ⟨hInv, answered_app hi a (hi.app_uses hCall hElse hNow hModest)⟩

/-- **Run lemma.** -/
theorem run_answered {s₀ : Deployment ops opsD τ} {tr : List (DeploymentTransition ops opsD τ)}
    (hInit : (deploymentSystem ops opsD N minUnits d).init s₀)
    (hRun : Run (deploymentSystem ops opsD N minUnits d) s₀ tr s) (hModest : ∀ x ∈ tr, x.Modest) :
    s.Inv ∧ (clusterSystem ops N minUnits).init (s₀.cluster d) ∧
      ∃ rows : List (List (ClusterTransition ops τ)),
        Run (clusterSystem ops N minUnits) (s₀.cluster d) rows.flatten (s.cluster d) ∧
          List.Forall₂ (Answers N minUnits d) tr rows := by
  have hStart : (clusterSystem ops N minUnits).init (s₀.cluster d) := by
    obtain ⟨hDisp, hApp, -, hNet⟩ := hInit
    exact ⟨hDisp, fun id => Manager.base_of_none (AppState.node?_of_init (hApp id) d), hNet⟩
  obtain ⟨rows, c, hCluster, hRows, hi, rfl⟩ := hRun.simulate
    (A := clusterSystem ops N minUnits) (R := fun s c => s.Inv ∧ c = s.cluster d)
    (Q := DeploymentTransition.Modest) (P := Answers N minUnits d)
    (fun s a s' c hR hStep hModest => by
      obtain ⟨hi, rfl⟩ := hR
      obtain ⟨hi', row, hRow⟩ := step_answered hi hStep hModest
      exact ⟨row, _, hRow.run, hRow, hi', rfl⟩)
    hModest ⟨.init hInit, rfl⟩
  exact ⟨hi, hStart, rows, hCluster, hRows⟩

/-- **The base nodes of the apps see a run of a cluster**, call by call: whatever
the managers do with groups, caches and other nodes, to the dispatcher they are
apps of a cluster, which overflow no sum and free what is in use. -/
theorem deployment_refines_cluster {s₀ : Deployment ops opsD τ}
    {tr : List (DeploymentTransition ops opsD τ)}
    (hInit : (deploymentSystem ops opsD N minUnits d).init s₀)
    (hRun : Run (deploymentSystem ops opsD N minUnits d) s₀ tr s) (hModest : ∀ x ∈ tr, x.Modest) :
    (clusterSystem ops N minUnits).init (s₀.cluster d) ∧
      ∃ rows : List (List (ClusterTransition ops τ)),
        Run (clusterSystem ops N minUnits) (s₀.cluster d) rows.flatten (s.cluster d) ∧
          List.Forall₂ (Answers N minUnits d) tr rows :=
  (run_answered hInit hRun hModest).2

/-- **What the groups of an app hold of the dispatcher is within the quota of its
node there**, whatever the network does to the messages. -/
theorem holds_within_quota {s₀ : Deployment ops opsD τ}
    {tr : List (DeploymentTransition ops opsD τ)} (hMin : MIN_RS_NUM ≤ minUnits)
    (hInit : (deploymentSystem ops opsD N minUnits d).init s₀)
    (hRun : Run (deploymentSystem ops opsD N minUnits d) s₀ tr s) (hModest : ∀ x ∈ tr, x.Modest)
    {id : Id} {node : AppNode} (hNode : s.disp.onlineNode? id = some node) :
    (s.app id).manager.holds d ≤ node.tokenQuota.toNat := by
  obtain ⟨hi, hStart, rows, hCluster, hRows⟩ := run_answered hInit hRun hModest
  have hInv := Cluster.inv_of_wellUsed hStart hCluster
    (forall_mem_rows hRows fun _ _ _ hRow => hRow.used)
  rw [Manager.holds_eq (hi.app id).books (hi.demand id)]
  exact BitVec.le_def.mp (hInv.use_le_quota hMin trivial hNode)

/-- What the groups of the online apps hold of the dispatcher. -/
def held (d : DispId) (s : Deployment ops opsD τ) : ℕ :=
  (s.disp.tab.items.map fun item => (s.app item.id).manager.holds d).sum

/-- What all groups hold is what all apps use. -/
theorem held_eq (hi : s.Inv) (d : DispId) : s.held d = (s.cluster d).uses := by
  refine congrArg List.sum (List.map_congr_left fun item _ => ?_)
  exact Manager.holds_eq (hi.app item.id).books (hi.demand item.id) d

/-- **The groups hold no more than there is.** Where the sections of the dispatcher
conserve its tokens, what the groups of all its online apps hold, what is free and
what is in reserve add up to no more than the total and the debt on record. -/
theorem holds_within_total {s₀ : Deployment ops opsD τ}
    {tr : List (DeploymentTransition ops opsD τ)} (hMin : MIN_RS_NUM ≤ minUnits)
    (hInit : (deploymentSystem ops opsD N minUnits d).init s₀)
    (hRun : Run (deploymentSystem ops opsD N minUnits d) s₀ tr s) (hModest : ∀ x ∈ tr, x.Modest)
    (hKeeps : ∀ x ∈ tr, x.Conserves) :
    (s.held d : ℤ) + s.disp.tokens.tokenFree.toNat + s.disp.tokens.appTokenRsvr.toNat ≤
      s.disp.tokens.tokenTotal.toNat +
        ((s.disp.tokens.tokenDynamic.toNat : ℤ) - s.disp.tokens.tokenDynamicNew.toNat) := by
  obtain ⟨hi, hStart, rows, hCluster, hRows⟩ := run_answered hInit hRun hModest
  have hInv := Cluster.inv_of_wellUsed hStart hCluster
    (forall_mem_rows hRows fun _ _ _ hRow => hRow.used)
  have hUses := hInv.uses_le hMin
  have hGood := Cluster.good_of_run hStart hCluster
    (forall_mem_rows hRows fun x hx _ hRow => hRow.keeps (hKeeps x hx))
  have hConserved := hGood.level.conserved
  have hHeld := held_eq hi d
  have hSame : (s.cluster d).disp = s.disp := rfl
  rw [hSame] at hUses hConserved
  omega

end Deployment

-- ---------------------------------------------------------------------------
-- An app whose group holds 6 of its 10 tokens
-- ---------------------------------------------------------------------------

namespace Deployment

def untouched : Deployment IdOps.nat IdOps.nat (List Dispatch2App) :=
  ⟨freshDispatcher, fun _ => freshApp, fun _ => []⟩

def supplied : Deployment IdOps.nat IdOps.nat (List Dispatch2App) :=
  { untouched with disp := withTokens }

def serving : Deployment IdOps.nat IdOps.nat (List Dispatch2App) :=
  { untouched with disp := withOneApp }

def holding6 : Deployment IdOps.nat IdOps.nat (List Dispatch2App) :=
  { serving with app := IdOps.nat.set serving.app 1 afterFirstGet }

/-- The dispatcher tells the app of its 10 tokens. -/
def telling : Deployment IdOps.nat IdOps.nat (List Dispatch2App) :=
  { holding6 with net := IdOps.nat.set holding6.net 1 [⟨10, 0⟩] }

def afterTold : AppState IdOps.nat := afterFirstGet.after (.rcvd 1 ⟨10, 0⟩) (by decide)

def informed : Deployment IdOps.nat IdOps.nat (List Dispatch2App) :=
  { telling with
    app := IdOps.nat.set telling.app 1 afterTold
    net := IdOps.nat.set telling.net 1 [] }

/-- The get is answered at once. -/
def gotSix : AppAct Nat := ⟨getOne 1 6, ⟨some (0, .ok), []⟩⟩

def getRun : List (DeploymentTransition IdOps.nat IdOps.nat (List Dispatch2App)) :=
  [⟨untouched, .dispatcher (.increase 100), supplied⟩,
    ⟨supplied, .dispatcher (.online 1), serving⟩, ⟨serving, .app 1 gotSix, holding6⟩,
    ⟨holding6, .announce 1, telling⟩, ⟨telling, .deliver 1 ⟨10, 0⟩ ⟨none, []⟩, informed⟩]

theorem untouched_initial :
    (deploymentSystem IdOps.nat IdOps.nat (Network.ordered _) 10 1).init untouched :=
  ⟨⟨2, 1, 5, Nat.two_pos, rfl⟩, fun _ => freshApp_initial, fun _ _ _ => rfl, fun _ => rfl⟩

theorem run_getRun :
    Run (deploymentSystem IdOps.nat IdOps.nat (Network.ordered _) 10 1) untouched getRun
      informed := by
  have hOnline : withTokens.SectionStep (.online 1) withOneApp :=
    ⟨true, (Option.some_get (by decide)).symm⟩
  have hNode : withOneApp.onlineNode? 1 = some { AppNode.init 0 10 0 with
      tokenQuota := 10, tokenQuotaNew := 10 } := by decide
  refine ((((Run.nil.snoc ?_).snoc ?_).snoc ?_).snoc ?_).snoc ?_
  · exact ⟨rfl, rfl, rfl⟩
  · exact ⟨hOnline, rfl, rfl⟩
  · exact ⟨trivial, afterFirstGet, managerSystem_step freshApp (getOne 1 6) trivial _, rfl⟩
  · exact ⟨_, _, hNode, Or.inl rfl, rfl⟩
  · exact ⟨[], afterTold, rfl, managerSystem_step afterFirstGet (.rcvd 1 ⟨10, 0⟩) trivial _, rfl⟩

theorem getRun_modest : ∀ x ∈ getRun, x.Modest := by
  have hFresh : freshApp.manager.version ≤ 2 ^ 32 := by decide
  have hAfter : afterFirstGet.manager.version ≤ 2 ^ 32 := by decide
  have hTold : afterTold.manager.version ≤ 2 ^ 32 := by decide
  have hVersion : ∀ id, (holding6.app id).manager.version ≤ 2 ^ 32 := by
    intro id
    show (IdOps.nat.set serving.app 1 afterFirstGet id).manager.version ≤ 2 ^ 32
    unfold IdOps.set
    split
    · exact hAfter
    · exact hFresh
  have hEnd : ∀ id, (informed.app id).manager.version ≤ 2 ^ 32 := by
    intro id
    show (IdOps.nat.set telling.app 1 afterTold id).manager.version ≤ 2 ^ 32
    unfold IdOps.set
    split
    · exact hTold
    · exact hVersion id
  unfold getRun
  simp only [List.forall_mem_cons]
  exact ⟨⟨fun _ => hFresh, trivial⟩, ⟨fun _ => hFresh, trivial⟩,
    ⟨hVersion, show freshApp.manager.groups.demand + (getOne 1 6).asks < 2 ^ 64 by decide⟩,
    ⟨hVersion, trivial⟩, ⟨hEnd, trivial⟩, by simp⟩

theorem getRun_conserves : ∀ x ∈ getRun, x.Conserves := by
  unfold getRun
  simp only [List.forall_mem_cons]
  refine ⟨?_, ?_, trivial, trivial, trivial, by simp⟩
  · exact show freshDispatcher.tokens.tokenTotal.toNat + (100 : ULong).toNat < 2 ^ 64 by decide
  · exact fun _ _ => by decide

theorem deployment_refines_cluster_one_app :
    (clusterSystem IdOps.nat (Network.ordered _) 10).init (untouched.cluster 1) ∧
      ∃ rows : List (List (ClusterTransition IdOps.nat (List Dispatch2App))),
        Run (clusterSystem IdOps.nat (Network.ordered _) 10) (untouched.cluster 1) rows.flatten
            (informed.cluster 1) ∧
          List.Forall₂ (Answers (Network.ordered _) 10 1) getRun rows :=
  deployment_refines_cluster untouched_initial run_getRun getRun_modest

theorem holds_within_quota_one_app : (informed.app 1).manager.holds 1 = 6 ∧
    (informed.app 1).manager.holds 1 ≤
      ((informed.disp.onlineNode? 1).get (by decide)).tokenQuota.toNat :=
  ⟨by decide, holds_within_quota (by decide) untouched_initial run_getRun getRun_modest
    (Option.some_get _).symm⟩

theorem holds_within_total_one_app : informed.held 1 = 6 ∧
    (informed.held 1 : ℤ) + informed.disp.tokens.tokenFree.toNat +
        informed.disp.tokens.appTokenRsvr.toNat ≤
      informed.disp.tokens.tokenTotal.toNat +
        ((informed.disp.tokens.tokenDynamic.toNat : ℤ) -
          informed.disp.tokens.tokenDynamicNew.toNat) :=
  ⟨by decide, holds_within_total (by decide) untouched_initial run_getRun getRun_modest
    getRun_conserves⟩

end Deployment

end DatastorQos
