import DatastorQos.Protocol.Connection
import DatastorQos.Dispatcher.NodeCalls
import DatastorQos.Dispatcher.Conservation
import DatastorQos.Table.FiniteMap

/-!
# datastor_qos — a dispatcher and all its apps

The whole dispatcher, with its table, pool and rebalances, any number of apps,
and a network for each. Sections of the dispatcher, what the apps do, sends and
deliveries come in any order.

* `cluster_projects` — for each id, a run of the cluster is a run of a
  `Connection`: what holds of every connection holds of each app;
* `cluster_uses_within_granted` — together the online apps use no more than the
  dispatcher has booked for them, if they overflow no sum and free what is in
  use;
* `cluster_uses_within_total` — and with what is free and in reserve, no more
  than there is, up to the debt on record, as long as the sections conserve the
  tokens.
-/

namespace DatastorQos

open Runs Apportion Relation

variable {Id τ : Type} {ops : IdOps Id}

namespace IdOps

variable {α β : Type}

/-- A write to what belongs to an id. -/
def set (ops : IdOps Id) (f : Id → α) (id : Id) (a : α) : Id → α :=
  fun x => if ops.Same id x then a else f x

theorem set_at (f : Id → α) (id : Id) (a : α) : ops.set f id a id = a := if_pos (ops.same_refl id)

theorem set_set (f : Id → α) (id : Id) (a b : α) :
    ops.set (ops.set f id a) id b = ops.set f id b := by
  funext x
  unfold set
  split <;> rfl

theorem set_self {f : Id → α} (hCongr : ∀ a b, ops.Same a b → f a = f b) (id : Id) :
    ops.set f id (f id) = f := by
  funext x
  unfold set
  split
  · exact hCongr id x ‹_›
  · rfl

theorem set_congr {f : Id → α} (hCongr : ∀ a b, ops.Same a b → f a = f b) (id : Id) (a : α)
    {x y : Id} (hSame : ops.Same x y) : ops.set f id a x = ops.set f id a y :=
  hSame.ite_congr (hCongr x y hSame)

theorem map_set (g : α → β) (f : Id → α) (id : Id) (a : α) :
    (fun x => g (ops.set f id a x)) = ops.set (fun x => g (f x)) id (g a) := by
  funext x
  unfold set
  split <;> rfl

end IdOps

/-- The dispatcher, the base node of each app, and the network to it. -/
structure Cluster (ops : IdOps Id) (τ : Type) where
  disp : DispManager ops
  base : Id → DispatchBaseNode
  net  : Id → τ

/-- Who moves: the dispatcher, the network, or one app. -/
inductive ClusterAct (Id : Type) where
  | dispatcher (a : DispSection Id)
  | allocTokens (id : Id) (cost : ULong)
  | freeTokens (id : Id) (cost fenceId : ULong)
  | announce (id : Id)
  | deliver (id : Id) (dta : Dispatch2App)
  | missed (id : Id) (dta : Dispatch2App)
  | app (id : Id) (op : BaseOp)
  | reconnect (id : Id)

namespace Cluster

def Step (N : Network τ Dispatch2App) (s : Cluster ops τ) : ClusterAct Id → Cluster ops τ → Prop
  | .dispatcher a, s' => s.disp.SectionStep a s'.disp ∧ s'.base = s.base ∧ s'.net = s.net
  | .allocTokens id cost, s' =>
    s.disp.allocSection id cost = some s'.disp ∧ s'.base = s.base ∧ s'.net = s.net
  | .freeTokens id cost fenceId, s' =>
    s.disp.freeSection id cost fenceId = some s'.disp ∧ s'.base = s.base ∧ s'.net = s.net
  | .announce id, s' => ∃ node t, s.disp.onlineNode? id = some node ∧
    N.send (s.net id) node.getProtocol t ∧ s' = { s with net := ops.set s.net id t }
  | .deliver id dta, s' => ∃ t, N.deliver (s.net id) dta t ∧
    s' = { s with base := ops.set s.base id ((s.base id).rcvd dta), net := ops.set s.net id t }
  | .missed id dta, s' => ∃ t, N.deliver (s.net id) dta t ∧
    s' = { s with base := ops.set s.base id .init, net := ops.set s.net id t }
  | .app id op, s' => op.IsOwn ∧ s' = { s with base := ops.set s.base id ((s.base id).apply op) }
  | .reconnect id, s' => s' = { s with base := ops.set s.base id .init }

end Cluster

/-- A dispatcher that guarantees `minUnits` to each app. -/
def clusterSystem (ops : IdOps Id) (N : Network τ Dispatch2App) (minUnits : ULong) :
    System (Cluster ops τ) (ClusterAct Id) where
  init s := (∃ tableLen maxNodeNum updateInterval h,
      s.disp = .init ops tableLen maxNodeNum updateInterval minUnits h) ∧
    (∀ id, s.base id = .init) ∧ ∀ id, s.net id = N.empty
  step := Cluster.Step N

abbrev ClusterTransition (ops : IdOps Id) (τ : Type) := Transition (Cluster ops τ) (ClusterAct Id)

/-- The apps overflow no sum, and free what is in use. -/
def ClusterTransition.WellUsed (x : ClusterTransition ops τ) : Prop :=
  match x.act with
  | .app id op => op.WellUsed (x.pre.base id)
  | _ => True

/-- The app of this id does not; what the others do is left open. -/
def ClusterTransition.WellUsedBy (id : Id) (x : ClusterTransition ops τ) : Prop :=
  match x.act with
  | .app x' op => ops.Same x' id → op.WellUsed (x.pre.base x')
  | _ => True

/-- If all apps use their nodes well, each one does. -/
theorem ClusterTransition.WellUsed.by {x : ClusterTransition ops τ} (h : x.WellUsed) (id : Id) :
    x.WellUsedBy id := by
  unfold WellUsed at h
  unfold WellUsedBy
  split
  · rename_i x' op hAct
    rw [hAct] at h
    exact fun _ => h
  · trivial

-- ---------------------------------------------------------------------------
-- One app of many
-- ---------------------------------------------------------------------------

section OneOfMany

variable {N : Network τ Dispatch2App} {minUnits : ULong} {used : Prop} {usedBy : Id → Prop}

/-- Some run of a connection ends like this, a run that overflows nothing if
`used` says so. -/
def Connection.Arises (N : Network τ Dispatch2App) (minUnits : ULong) (used : Prop)
    (c : Connection τ) : Prop :=
  ∃ (c₀ : Connection τ) (tr : List (ConnectionTransition τ)),
    (connectionSystem N minUnits).init c₀ ∧ Run (connectionSystem N minUnits) c₀ tr c ∧
      (used → ∀ x ∈ tr, x.WellUsed)

/-- One more step of the connection. -/
theorem Connection.Arises.step {c c' : Connection τ} {a : ConnectionAct}
    (h : c.Arises N minUnits used) (hStep : (connectionSystem N minUnits).step c a c')
    (hUsed : used → ConnectionTransition.WellUsed ⟨c, a, c'⟩) : c'.Arises N minUnits used := by
  obtain ⟨c₀, tr, hInit, hRun, hBefore⟩ := h
  exact ⟨c₀, _, hInit, hRun.snoc hStep, fun h => forall_snoc (hBefore h) (hUsed h)⟩

/-- Calls on the node of the dispatcher are steps of the connection. -/
theorem Connection.Arises.called {node node' : AppNode} {b : DispatchBaseNode} {t : τ}
    (h : (⟨⟨node.core, True⟩, b, t⟩ : Connection τ).Arises N minUnits used)
    (hTo : node.CalledTo node') :
    (⟨⟨node'.core, True⟩, b, t⟩ : Connection τ).Arises N minUnits used := by
  have hCalls : ∀ n n' : AppNode, ReflTransGen AppNode.CallStep n n' →
      (⟨⟨n, True⟩, b, t⟩ : Connection τ).Arises N minUnits used →
      (⟨⟨n', True⟩, b, t⟩ : Connection τ).Arises N minUnits used := by
    intro n n' hTo hArises
    induction hTo with
    | refl => exact hArises
    | tail _ hLast ih =>
      obtain ⟨call, hNot, hApply⟩ := hLast
      refine ih.step (Connection.step_dispatcher ?_
        ⟨hApply, iff_of_true trivial (Or.inl trivial)⟩) fun _ => trivial
      cases call with
      | online tokens => exact absurd rfl (hNot tokens)
      | updateTokenQuotaNew _ | updateTokenQuota | rcvd _ | alloc _ | free _ _ => trivial
  exact hCalls node.core node'.core hTo h

namespace Cluster

/-- What the app of an id and its dispatcher are to each other is what some run
of a connection leads to. -/
def Connects (N : Network τ Dispatch2App) (minUnits : ULong) (used : Prop) (s : Cluster ops τ)
    (id : Id) : Prop :=
  match s.disp.onlineNode? id with
  | some node => (⟨⟨node.core, True⟩, s.base id, s.net id⟩ : Connection τ).Arises N minUnits used
  -- the node is made when it comes online
  | none => ∀ ptr fenceId, (⟨⟨.init ptr minUnits fenceId, False⟩, s.base id, s.net id⟩ :
      Connection τ).Arises N minUnits used

/-- `usedBy` are the ids whose apps overflow nothing. -/
structure Inv (N : Network τ Dispatch2App) (minUnits : ULong) (usedBy : Id → Prop)
    (s : Cluster ops τ) : Prop where
  placed   : s.disp.Placed minUnits
  congr    : ∀ a b, ops.Same a b → s.base a = s.base b ∧ s.net a = s.net b
  connects : ∀ id, s.Connects N minUnits (usedBy id) id

variable {s s' : Cluster ops τ}

/-- An online app with its node is where a connection leads. -/
theorem connects_online {id : Id} {node : AppNode} (h : s.Connects N minUnits used id)
    (hNode : s.disp.onlineNode? id = some node) :
    (⟨⟨node.core, True⟩, s.base id, s.net id⟩ : Connection τ).Arises N minUnits used := by
  unfold Connects at h
  rw [hNode] at h
  exact h

/-- A step of the connection beside the dispatcher, on either side of its being
online. -/
theorem Connects.step {id : Id} (h : s.Connects N minUnits used id) (a : ConnectionAct)
    (hDisp : s'.disp.onlineNode? id = s.disp.onlineNode? id)
    (hStep : ∀ disp : AppNodeState,
      (connectionSystem N minUnits).step ⟨disp, s.base id, s.net id⟩ a ⟨disp, s'.base id, s'.net id⟩)
    (hUsed : used → ∀ disp : AppNodeState, ConnectionTransition.WellUsed
      ⟨⟨disp, s.base id, s.net id⟩, a, ⟨disp, s'.base id, s'.net id⟩⟩) :
    s'.Connects N minUnits used id := by
  unfold Connects at h ⊢
  rw [hDisp]
  split at h
  · exact h.step (hStep _) fun h => hUsed h _
  · exact fun ptr fenceId => (h ptr fenceId).step (hStep _) fun h => hUsed h _

/-- What the dispatcher does to its nodes are steps of their connections. -/
theorem Inv.dispatcher (h : s.Inv N minUnits usedBy) (hPlaced : s'.disp.Placed minUnits)
    (hCalled : DispManager.NodesCalled s.disp s'.disp) (hBase : s'.base = s.base)
    (hNet : s'.net = s.net) : s'.Inv N minUnits usedBy := by
  refine ⟨hPlaced, by rw [hBase, hNet]; exact h.congr, fun id => ?_⟩
  have hBefore := h.connects id
  unfold Connects at hBefore ⊢
  rw [hBase, hNet]
  split at hBefore
  · rename_i node hNode
    obtain ⟨node', hNode', hTo⟩ := hCalled.stays id node hNode
    rw [hNode']
    exact hBefore.called hTo
  · rename_i hNone
    split
    · -- it comes online, with the guarantee
      rename_i node' hNode'
      obtain ⟨tokens, tokens', ptr, fenceId, hMin, hOnline⟩ := hCalled.joins id node' hNone hNode'
      rw [h.placed.units.1] at hOnline
      rw [h.placed.units.2] at hMin
      have hMade : node' = { AppNode.init ptr minUnits fenceId with
            tokenQuota := tokens.defaultTokenMin, tokenQuotaNew := tokens.defaultTokenMin } ∧
          tokens.checkUpAppNum.2 = .ok := by
        rcases TokenGlobal.online_cases hOnline with ⟨-, hErr, -⟩ | ⟨hOk, -, hMade, -⟩
        · cases hErr
        · exact ⟨hMade, hOk⟩
      have hBlank : UpdateNode.init 0 ⟨minUnits, 0⟩ 0 = ⟨0, 0, 0⟩ := by
        have hZero : ULong.cmin minUnits 0 = 0 := by
          unfold ULong.cmin
          split <;> bv_omega
        simp only [UpdateNode.init, hZero, sub_zero]
      have hCore : node'.core = node' := by
        rw [hMade.1]
        simp only [AppNode.core, AppNode.init, hBlank]
      rw [hCore]
      refine (hBefore ptr fenceId).step (a := .dispatcher (.online tokens))
        ⟨⟨fun hOff => hOff, hMin⟩, ⟨?_, iff_of_true trivial (Or.inr hMade.2)⟩, rfl, rfl⟩
        fun _ => trivial
      simp only [AppNodeCall.apply, hOnline, Option.map_some]
    · exact hBefore

/-- What changes at one id only. -/
theorem Inv.at_id (h : s.Inv N minUnits usedBy) {id : Id} {b : DispatchBaseNode} {t : τ}
    (hNew : s' = { s with base := ops.set s.base id b, net := ops.set s.net id t })
    (hConnects : ∀ x, ops.Same id x → s.base x = s.base id → s.net x = s.net id →
      s'.base x = b → s'.net x = t → s'.Connects N minUnits (usedBy x) x) :
    s'.Inv N minUnits usedBy := by
  subst hNew
  refine ⟨h.placed, fun x y hSame => ⟨?_, ?_⟩, fun x => ?_⟩
  · exact IdOps.set_congr (fun x y hSame => (h.congr x y hSame).1) id b hSame
  · exact IdOps.set_congr (fun x y hSame => (h.congr x y hSame).2) id t hSame
  · by_cases hx : ops.Same id x
    · obtain ⟨hb, ht⟩ := h.congr id x hx
      exact hConnects x hx hb.symm ht.symm (if_pos hx) (if_pos hx)
    · have hBefore := h.connects x
      unfold Connects at hBefore ⊢
      simp only [IdOps.set, if_neg hx]
      exact hBefore

/-- A step of the app, or of the network to it. -/
theorem Inv.beside (h : s.Inv N minUnits usedBy) {id : Id} (a : ConnectionAct)
    {b : DispatchBaseNode} {t : τ}
    (hNew : s' = { s with base := ops.set s.base id b, net := ops.set s.net id t })
    (hStep : ∀ disp : AppNodeState,
      (connectionSystem N minUnits).step ⟨disp, s.base id, s.net id⟩ a ⟨disp, b, t⟩)
    (hUsed : ∀ x, ops.Same id x → usedBy x → ∀ disp : AppNodeState,
      ConnectionTransition.WellUsed ⟨⟨disp, s.base id, s.net id⟩, a, ⟨disp, b, t⟩⟩) :
    s'.Inv N minUnits usedBy := by
  refine h.at_id hNew fun x hx hb ht hb' ht' => ?_
  refine (h.connects x).step a (by rw [hNew]) ?_ ?_
  · rw [hb, ht, hb', ht']
    exact hStep
  · rw [hb, ht, hb', ht']
    exact hUsed x hx

/-- **Step lemma.** -/
theorem Inv.step {a : ClusterAct Id} (h : s.Inv N minUnits usedBy)
    (hStep : (clusterSystem ops N minUnits).step s a s')
    (hUsed : ∀ id, usedBy id → ClusterTransition.WellUsedBy id ⟨s, a, s'⟩) :
    s'.Inv N minUnits usedBy := by
  have hNet : ∀ id, ops.set s.net id (s.net id) = s.net :=
    IdOps.set_self fun x y hSame => (h.congr x y hSame).2
  have hBase : ∀ id, ops.set s.base id (s.base id) = s.base :=
    IdOps.set_self fun x y hSame => (h.congr x y hSame).1
  cases a with
  | dispatcher a =>
    obtain ⟨hSection, hBase, hNet⟩ := hStep
    obtain ⟨hPlaced, hCalled⟩ := DispManager.section_called h.placed hSection
    exact h.dispatcher hPlaced hCalled hBase hNet
  | allocTokens id cost =>
    obtain ⟨hAlloc, hBase, hNet⟩ := hStep
    obtain ⟨hPlaced, hCalled⟩ := h.placed.of_write (DispManager.allocSection_cases hAlloc)
    exact h.dispatcher hPlaced hCalled hBase hNet
  | freeTokens id cost fenceId =>
    obtain ⟨hFree, hBase, hNet⟩ := hStep
    obtain ⟨hPlaced, hCalled⟩ := h.placed.of_write (DispManager.freeSection_cases hFree)
    exact h.dispatcher hPlaced hCalled hBase hNet
  | announce id =>
    obtain ⟨node, t, hNode, hSend, hNew⟩ := hStep
    refine h.at_id (b := s.base id) (by rw [hBase]; exact hNew) fun x hx hb ht hb' ht' => ?_
    have hSame : s'.disp.onlineNode? x = some node := by
      rw [hNew, ← hNode, DispManager.onlineNode?, DispManager.onlineNode?, HashTable.find_congr hx]
    have hNode' : s.disp.onlineNode? x = some node := by rw [← hSame, hNew]
    have hBefore := connects_online (h.connects x) hNode'
    unfold Connects
    rw [hSame]
    rw [hb, ht] at hBefore
    simp only [hb', ht']
    exact hBefore.step (a := .announce) ⟨trivial, hSend, rfl, rfl⟩ fun _ => trivial
  | deliver id dta =>
    obtain ⟨t, hDeliver, hNew⟩ := hStep
    exact h.beside (.deliver dta) hNew (fun _ => ⟨hDeliver, rfl, rfl⟩) fun _ _ _ _ => trivial
  | missed id dta =>
    obtain ⟨t, hDeliver, hNew⟩ := hStep
    exact h.beside (.missed dta) hNew (fun _ => ⟨hDeliver, rfl, rfl⟩) fun _ _ _ _ => trivial
  | app id op =>
    obtain ⟨hOwn, hNew⟩ := hStep
    exact h.beside (.app op) (by rw [hNet]; exact hNew) (fun _ => ⟨hOwn, rfl⟩)
      fun x hx hBy _ => hUsed x hBy hx
  | reconnect id =>
    have hNew : s' = { s with base := ops.set s.base id .init } := hStep
    exact h.beside .reconnect (by rw [hNet]; exact hNew) (fun _ => rfl) fun _ _ _ _ => trivial

/-- Nothing has happened on any connection. -/
theorem inv_init (h : (clusterSystem ops N minUnits).init s) : s.Inv N minUnits usedBy := by
  obtain ⟨⟨tableLen, maxNodeNum, updateInterval, hPos, hDisp⟩, hBase, hNet⟩ := h
  have hFind : ∀ id, s.disp.tab.find id = none := by
    intro id
    rw [hDisp]
    simp [DispManager.init]
  refine ⟨⟨fun id ptr hx => ?_, fun id ptr hx => ?_, by rw [hDisp]; exact ⟨rfl, rfl⟩⟩,
    fun a b _ => ⟨by rw [hBase, hBase], by rw [hNet, hNet]⟩, fun id => ?_⟩
  · rw [hFind] at hx
    cases hx
  · rw [hFind] at hx
    cases hx
  · unfold Connects
    rw [DispManager.onlineNode?, hFind, hBase, hNet]
    exact fun ptr fenceId => ⟨_, [], ⟨ptr, fenceId, rfl⟩, .nil, by simp⟩

/-- **Run lemma.** -/
theorem inv_of_run {s₀ : Cluster ops τ} {tr : List (ClusterTransition ops τ)}
    (hInit : (clusterSystem ops N minUnits).init s₀)
    (hRun : Run (clusterSystem ops N minUnits) s₀ tr s)
    (hUsed : ∀ id, usedBy id → ∀ x ∈ tr, x.WellUsedBy id) : s.Inv N minUnits usedBy := by
  induction hRun with
  | nil => exact inv_init hInit
  | snoc _ hStep ih =>
    refine (ih fun id hBy x hx => hUsed id hBy x (List.mem_append_left _ hx)).step hStep ?_
    exact fun id hBy => hUsed id hBy _ (List.mem_append_right _ (List.mem_singleton_self _))

/-- With all apps using their nodes well, every connection is one that does. -/
theorem inv_of_wellUsed {s₀ : Cluster ops τ} {tr : List (ClusterTransition ops τ)}
    (hInit : (clusterSystem ops N minUnits).init s₀)
    (hRun : Run (clusterSystem ops N minUnits) s₀ tr s) (hUsed : ∀ x ∈ tr, x.WellUsed) :
    s.Inv N minUnits fun _ => True :=
  inv_of_run hInit hRun fun id _ x hx => (hUsed x hx).by id

/-- **One app of many is a connection.** What an online app and its dispatcher
are to each other, after any run of the whole cluster, is where some run of a
connection leads, one that overflows nothing if that app never did; what a
rebalance works on is not part of it. -/
theorem cluster_projects {s₀ : Cluster ops τ} {tr : List (ClusterTransition ops τ)}
    (hInit : (clusterSystem ops N minUnits).init s₀)
    (hRun : Run (clusterSystem ops N minUnits) s₀ tr s) {id : Id} {node : AppNode}
    (hNode : s.disp.onlineNode? id = some node) :
    ∃ (c₀ : Connection τ) (ctr : List (ConnectionTransition τ)),
      (connectionSystem N minUnits).init c₀ ∧
        Run (connectionSystem N minUnits) c₀ ctr ⟨⟨node.core, True⟩, s.base id, s.net id⟩ ∧
          ((∀ x ∈ tr, x.WellUsedBy id) → ∀ x ∈ ctr, x.WellUsed) := by
  have hInv : s.Inv N minUnits fun id => ∀ x ∈ tr, x.WellUsedBy id :=
    inv_of_run hInit hRun fun _ hUsed => hUsed
  exact connects_online (hInv.connects id) hNode

-- ---------------------------------------------------------------------------
-- All apps together
-- ---------------------------------------------------------------------------

/-- What the online apps use. -/
def uses (s : Cluster ops τ) : ℕ :=
  total (fun item => (s.base item.id).tokenInuse) s.disp.tab.items

/-- An app that overflows nothing uses no more than its node has. -/
theorem Inv.use_le_quota (h : s.Inv N minUnits usedBy) (hMin : MIN_RS_NUM ≤ minUnits) {id : Id}
    (hBy : usedBy id) {node : AppNode} (hNode : s.disp.onlineNode? id = some node) :
    (s.base id).tokenInuse ≤ node.tokenQuota := by
  obtain ⟨c₀, ctr, hInit, hRun, hUsed⟩ := connects_online (h.connects id) hNode
  obtain ⟨hInv, -⟩ :=
    Connection.inv_of_run (BitVec.le_trans (by decide) hMin) hInit hRun (hUsed hBy)
  have hQuota := BitVec.le_trans hMin (hInv.disp.online trivial).1
  have hHeld : ULong.cmax MIN_RS_NUM node.tokenQuota ≤ node.tokenQuota :=
    ULong.cmax_le hQuota (BitVec.le_refl _)
  exact BitVec.le_trans hInv.base.inuse_le hHeld

/-- Summed over the table: each app is within what its node has. -/
theorem Inv.uses_le (h : s.Inv N minUnits fun _ => True) (hMin : MIN_RS_NUM ≤ minUnits) :
    s.uses ≤ s.disp.granted := by
  refine List.sum_le_sum fun item hItem => ?_
  have hFind : s.disp.tab.find item.id = some item.pri :=
    HashTable.find_eq_some_iff.mpr ⟨item, hItem, ops.same_refl _, rfl⟩
  obtain ⟨node, hNode⟩ := Option.isSome_iff_exists.mp (h.placed.stored _ _ hFind)
  have hOnline : s.disp.onlineNode? item.id = some node := by
    rw [DispManager.onlineNode?, hFind]
    exact hNode
  show (s.base item.id).tokenInuse.toNat ≤ (s.disp.apps.quotaOf item.pri).toNat
  unfold AppNodes.quotaOf
  rw [hNode]
  exact BitVec.le_def.mp (h.use_le_quota hMin trivial hOnline)

/-- **The apps use no more than the dispatcher has booked for them**, in any
interleaving, over any network. -/
theorem cluster_uses_within_granted {s₀ : Cluster ops τ} {tr : List (ClusterTransition ops τ)}
    (hMin : MIN_RS_NUM ≤ minUnits) (hInit : (clusterSystem ops N minUnits).init s₀)
    (hRun : Run (clusterSystem ops N minUnits) s₀ tr s) (hUsed : ∀ x ∈ tr, x.WellUsed) :
    s.uses ≤ s.disp.granted :=
  (inv_of_wellUsed hInit hRun hUsed).uses_le hMin

/-- The sections of the dispatcher conserve its tokens. -/
def Conserves (x : ClusterTransition ops τ) : Prop :=
  match x.act with
  | .dispatcher a => a.Keeps x.pre.disp
  | _ => True

/-- What an app does to its node moves no quota of the dispatcher. -/
theorem good_step {a : ClusterAct Id} (hg : s.disp.Good)
    (hStep : (clusterSystem ops N minUnits).step s a s') (hKeeps : Conserves ⟨s, a, s'⟩) :
    s'.disp.Good := by
  have hWrite : ∀ {m m' : DispManager ops}, m.Good →
      (m' = m ∨ ∃ ptr node node', m.apps.node? ptr = some node ∧ node.CalledTo node' ∧
        node'.ptr = node.ptr ∧ node'.tokenQuota = node.tokenQuota ∧
        m' = { m with apps := m.apps.setNode node' }) → m'.Good := by
    rintro m m' hg (rfl | ⟨ptr, node, node', hNode, -, hPtr, hQuota, rfl⟩)
    · exact hg
    · exact hg.congr (fun hLevel => hLevel) rfl (Nat.le_refl _) (.setNode node' hNode hPtr hQuota)
  cases a with
  | dispatcher a => exact hg.step hKeeps hStep.1
  | allocTokens id cost => exact hWrite hg (DispManager.allocSection_cases hStep.1)
  | freeTokens id cost fenceId => exact hWrite hg (DispManager.freeSection_cases hStep.1)
  | announce id =>
    obtain ⟨node, t, -, -, rfl⟩ := hStep
    exact hg
  | deliver id dta =>
    obtain ⟨t, -, rfl⟩ := hStep
    exact hg
  | missed id dta =>
    obtain ⟨t, -, rfl⟩ := hStep
    exact hg
  | app id op =>
    obtain ⟨-, rfl⟩ := hStep
    exact hg
  | reconnect id =>
    obtain rfl : s' = { s with base := ops.set s.base id .init } := hStep
    exact hg

theorem good_of_run {s₀ : Cluster ops τ} {tr : List (ClusterTransition ops τ)}
    (hInit : (clusterSystem ops N minUnits).init s₀)
    (hRun : Run (clusterSystem ops N minUnits) s₀ tr s) (hKeeps : ∀ x ∈ tr, Conserves x) :
    s.disp.Good := by
  induction hRun with
  | nil =>
    obtain ⟨⟨tableLen, maxNodeNum, updateInterval, hPos, hDisp⟩, -⟩ := hInit
    exact .init ⟨tableLen, maxNodeNum, updateInterval, minUnits, hPos, hDisp⟩
  | snoc _ hStep ih =>
    obtain ⟨hBefore, hLast⟩ := List.forall_mem_append.mp hKeeps
    exact good_step (ih hBefore) hStep (List.forall_mem_singleton.mp hLast)

/-- **The apps use no more than there is.** Where the sections of the dispatcher
conserve its tokens, what the online apps use, what is free and what is in
reserve add up to no more than the total and the debt on record. -/
theorem cluster_uses_within_total {s₀ : Cluster ops τ} {tr : List (ClusterTransition ops τ)}
    (hMin : MIN_RS_NUM ≤ minUnits) (hInit : (clusterSystem ops N minUnits).init s₀)
    (hRun : Run (clusterSystem ops N minUnits) s₀ tr s) (hUsed : ∀ x ∈ tr, x.WellUsed)
    (hKeeps : ∀ x ∈ tr, Conserves x) :
    (s.uses : ℤ) + s.disp.tokens.tokenFree.toNat + s.disp.tokens.appTokenRsvr.toNat ≤
      s.disp.tokens.tokenTotal.toNat +
        ((s.disp.tokens.tokenDynamic.toNat : ℤ) - s.disp.tokens.tokenDynamicNew.toNat) := by
  have hGood := good_of_run hInit hRun hKeeps
  have hUses := (inv_of_wellUsed hInit hRun hUsed).uses_le hMin
  have hConserved := hGood.level.conserved
  omega

end Cluster

end OneOfMany

-- ---------------------------------------------------------------------------
-- A dispatcher of 100 tokens, and an app that takes 6 of its 10
-- ---------------------------------------------------------------------------

namespace Cluster

def lonely : Cluster IdOps.nat (List Dispatch2App) := ⟨freshDispatcher, fun _ => .init, fun _ => []⟩

def stocked : Cluster IdOps.nat (List Dispatch2App) := { lonely with disp := withTokens }

def withApp : Cluster IdOps.nat (List Dispatch2App) := { lonely with disp := withOneApp }

def sent : Cluster IdOps.nat (List Dispatch2App) :=
  { withApp with net := IdOps.nat.set withApp.net 1 [⟨10, 0⟩] }

def using6 : Cluster IdOps.nat (List Dispatch2App) :=
  { sent with base := IdOps.nat.set sent.base 1 ((sent.base 1).apply (.alloc 6)) }

def shortRun : List (ClusterTransition IdOps.nat (List Dispatch2App)) :=
  [⟨lonely, .dispatcher (.increase 100), stocked⟩, ⟨stocked, .dispatcher (.online 1), withApp⟩,
    ⟨withApp, .announce 1, sent⟩, ⟨sent, .app 1 (.alloc 6), using6⟩]

theorem lonely_initial : (clusterSystem IdOps.nat (Network.ordered _) 10).init lonely :=
  ⟨⟨2, 1, 5, Nat.two_pos, rfl⟩, fun _ => rfl, fun _ => rfl⟩

theorem run_shortRun :
    Run (clusterSystem IdOps.nat (Network.ordered _) 10) lonely shortRun using6 := by
  have hOnline : withTokens.SectionStep (.online 1) withOneApp :=
    ⟨true, (Option.some_get (by decide)).symm⟩
  have hNode : withOneApp.onlineNode? 1 = some { AppNode.init 0 10 0 with
      tokenQuota := 10, tokenQuotaNew := 10 } := by decide
  refine (((Run.nil.snoc ?_).snoc ?_).snoc ?_).snoc ?_
  · exact ⟨rfl, rfl, rfl⟩
  · exact ⟨hOnline, rfl, rfl⟩
  · exact ⟨_, _, hNode, Or.inl rfl, rfl⟩
  · exact ⟨trivial, rfl⟩

theorem shortRun_wellUsed : ∀ x ∈ shortRun, x.WellUsed := by
  unfold shortRun
  simp only [List.forall_mem_cons]
  exact ⟨trivial, trivial, trivial,
    show (sent.base 1).tokenInuse.toNat + (6 : ULong).toNat < 2 ^ 64 by decide, by simp⟩

theorem shortRun_conserves : ∀ x ∈ shortRun, Conserves x := by
  unfold shortRun
  simp only [List.forall_mem_cons]
  refine ⟨?_, ?_, trivial, trivial, by simp⟩
  · exact show freshDispatcher.tokens.tokenTotal.toNat + (100 : ULong).toNat < 2 ^ 64 by decide
  · exact fun _ _ => by decide

theorem cluster_projects_one_app :
    ∃ (c₀ : Connection (List Dispatch2App)) (ctr : List (ConnectionTransition (List Dispatch2App))),
      (connectionSystem (Network.ordered _) 10).init c₀ ∧
        Run (connectionSystem (Network.ordered _) 10) c₀ ctr
          ⟨⟨((using6.disp.onlineNode? 1).get (by decide)).core, True⟩, using6.base 1, using6.net 1⟩ ∧
            ((∀ x ∈ shortRun, x.WellUsedBy 1) → ∀ x ∈ ctr, x.WellUsed) :=
  cluster_projects lonely_initial run_shortRun (Option.some_get _).symm

theorem cluster_uses_within_granted_one_app : using6.uses = 6 ∧ using6.uses ≤ using6.disp.granted :=
  ⟨by decide, cluster_uses_within_granted (by decide) lonely_initial run_shortRun shortRun_wellUsed⟩

theorem cluster_uses_within_total_one_app :
    (using6.uses : ℤ) + using6.disp.tokens.tokenFree.toNat +
        using6.disp.tokens.appTokenRsvr.toNat ≤
      using6.disp.tokens.tokenTotal.toNat +
        ((using6.disp.tokens.tokenDynamic.toNat : ℤ) - using6.disp.tokens.tokenDynamicNew.toNat) :=
  cluster_uses_within_total (by decide) lonely_initial run_shortRun shortRun_wellUsed
    shortRun_conserves

end Cluster

end DatastorQos
