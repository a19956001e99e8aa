import DatastorQos.App.Accounting
import DatastorQos.App.NodeWakeup
import DatastorQos.App.Verdicts

/-!
# datastor_qos — the life of one node among all

A manager works on many nodes, through groups that hold tokens of several. Seen
from one node, every call of the manager is some calls on that node, or on the
one that comes in its place; so a run of the manager is, for each incarnation of
a node, a run of that node alone.

* `node_lives_alone` — the projection, from the first moment of an incarnation
  and from any moment of a run to any later one;
* `queue_keeps_order` — in between, a queue lost requests at its front and got
  others at its end, and none of those it lost waits any more.
-/

namespace DatastorQos

open Keyed GrpHeap Runs

variable {Id : Type} {ops : IdOps Id} {bound bound' : GrpPtr}

-- ---------------------------------------------------------------------------
-- One node
-- ---------------------------------------------------------------------------

/-- Requests join only for groups made from `bound` on. -/
def NodeCall.Since (bound : GrpPtr) : NodeCall Id → Prop
  | .allocResource _ rs => bound ≤ rs.owner.grp
  | _ => True

namespace DispatchNode

/-- Calls on the node alone lead from one to the other. -/
def LivesTo (bound : GrpPtr) (n n' : DispatchNode Id) : Prop :=
  ∃ tr, Run nodeSystem n tr n' ∧ ∀ x ∈ tr, x.act.Since bound

variable {n n₁ n' : DispatchNode Id}

theorem LivesTo.refl (n : DispatchNode Id) : n.LivesTo bound n := ⟨[], .nil, by simp⟩

/-- Two stretches of a life are one. -/
theorem LivesTo.trans (a : n.LivesTo bound n₁) (b : n₁.LivesTo bound n') : n.LivesTo bound n' := by
  obtain ⟨tr, hRun, hSince⟩ := a
  obtain ⟨tr', hRun', hSince'⟩ := b
  exact ⟨tr ++ tr', hRun.append hRun', List.forall_mem_append.mpr ⟨hSince, hSince'⟩⟩

/-- With an earlier bound on the groups whose requests joined. -/
theorem LivesTo.mono (a : n.LivesTo bound n') (hBound : bound' ≤ bound) : n.LivesTo bound' n' := by
  obtain ⟨tr, hRun, hSince⟩ := a
  refine ⟨tr, hRun, fun x hx => ?_⟩
  have hx := hSince x hx
  revert hx
  cases x.act with
  | allocResource h rs => exact Nat.le_trans hBound
  | _ => exact id

/-- One call is a stretch. -/
theorem LivesTo.call (call : NodeCall Id) (hLegal : call.Legal) (hSince : call.Since bound) :
    n.LivesTo bound (call.apply n) :=
  ⟨_, .single (NodeCall.step n call hLegal), List.forall_mem_singleton.mpr hSince⟩

/-- No call on a node writes its fence. -/
theorem apply_fenceId (n : DispatchNode Id) (call : NodeCall Id) :
    (call.apply n).fenceId = n.fenceId := by
  cases call with
  | allocResource h rs => exact n.allocResource_fenceId h rs
  | freeResource h rip => exact n.freeResource_fenceId h [] rip
  | resourceChanged h dta => exact n.resourceChanged_fenceId h [] dta
  | reset => rfl
  | popAll h => rfl

/-- So a node keeps it for life. -/
theorem LivesTo.fenceId_eq (a : n.LivesTo bound n') : n'.fenceId = n.fenceId := by
  obtain ⟨tr, hRun, -⟩ := a
  refine hRun.invariant (I := fun x => x.fenceId = n.fenceId) ?_ rfl
  rintro s call _ hs ⟨-, rfl⟩
  exact (s.apply_fenceId call).trans hs

/-- The groups that are collected on the way do not matter to the node. -/
theorem pump_got (base : DispatchBaseNode) (press : ULong) (h : GrpHeap Id) (got got' : List GrpPtr)
    (tokenList : List (ResourceList Id)) :
    (pump base press h got tokenList).1 = (pump base press h got' tokenList).1 ∧
      (pump base press h got tokenList).2.1 = (pump base press h got' tokenList).2.1 := by
  induction tokenList generalizing base press h got got' with
  | nil => exact ⟨rfl, rfl⟩
  | cons rs rest ih =>
    unfold pump
    rcases base.tryAllocFromDesc_cases rs.rs.cost with ⟨-, hAlloc⟩ | ⟨-, hAlloc⟩
    · simp only [hAlloc, grantFront_fst]
      exact ih _ _ _ _ _
    · simp only [hAlloc, and_self]

/-- Nor do they where the queue may not be served. -/
theorem resourceIncreased_got (n : DispatchNode Id) (h : GrpHeap Id) (got : List GrpPtr) :
    (n.resourceIncreased h got).1 = (n.resourceIncreased h []).1 := by
  obtain ⟨hBase, hTokens⟩ :=
    pump_got n.baseNode n.lheadNodereq.press h got [] n.lheadNodereq.tokenList
  unfold resourceIncreased
  split
  · rfl
  · simp only [hBase, hTokens]

/-- Nor where tokens are given back. -/
theorem freeResource_got (n : DispatchNode Id) (h : GrpHeap Id) (rip : TokenReq Id)
    (got : List GrpPtr) : (n.freeResource h rip got).1 = (n.freeResource h rip []).1 := by
  unfold freeResource
  split
  · exact resourceIncreased_got _ h got
  · rfl

end DispatchNode

-- ---------------------------------------------------------------------------
-- One queue
-- ---------------------------------------------------------------------------

/-- Some requests left at the front, and others joined at the end. -/
def KeepsOrder (bound : GrpPtr) (served q q' : List (ResourceList Id)) : Prop :=
  ∃ rest new, q = served ++ rest ∧ q' = rest ++ new ∧ ∀ rs ∈ new, bound ≤ rs.owner.grp

theorem KeepsOrder.refl (bound : GrpPtr) (q : List (ResourceList Id)) :
    ∃ served, KeepsOrder bound served q q :=
  ⟨[], q, [], rfl, (List.append_nil q).symm, by simp⟩

/-- What left first and what left then stood at the front in this order. -/
theorem KeepsOrder.trans {served₁ served₂ q q₁ q' : List (ResourceList Id)}
    (a : KeepsOrder bound served₁ q q₁) (b : KeepsOrder bound served₂ q₁ q') :
    ∃ served, KeepsOrder bound served q q' := by
  obtain ⟨rest₁, new₁, rfl, rfl, hNew₁⟩ := a
  obtain ⟨rest₂, new₂, heq, rfl, hNew₂⟩ := b
  rcases List.append_eq_append_iff.mp heq with ⟨left, rfl, rfl⟩ | ⟨left, rfl, rfl⟩
  · -- all that was there left, and some of those that joined
    refine ⟨served₁ ++ rest₁, [], rest₂ ++ new₂, (List.append_nil _).symm, rfl, ?_⟩
    exact List.forall_mem_append.mpr ⟨(List.forall_mem_append.mp hNew₁).2, hNew₂⟩
  · refine ⟨served₁ ++ served₂, left, new₁ ++ new₂, (List.append_assoc ..).symm,
      List.append_assoc .., List.forall_mem_append.mpr ⟨hNew₁, hNew₂⟩⟩

namespace DispatchNode

variable {n n' : DispatchNode Id}

/-- Serving takes requests off the front: by induction on the queue. -/
theorem pump_keepsOrder (bound : GrpPtr) (base : DispatchBaseNode) (press : ULong) (h : GrpHeap Id)
    (got : List GrpPtr) (tokenList : List (ResourceList Id)) :
    ∃ served,
      KeepsOrder bound served tokenList (pump base press h got tokenList).2.1.tokenList := by
  induction tokenList generalizing base press h got with
  | nil => exact KeepsOrder.refl bound []
  | cons rs rest ih =>
    unfold pump
    rcases base.tryAllocFromDesc_cases rs.rs.cost with ⟨-, hAlloc⟩ | ⟨-, hAlloc⟩
    · simp only [hAlloc]
      obtain ⟨served, left, new, hRest, hQueue, hNew⟩ := ih (base.chargeSection rs.rs.cost)
        (press - rs.rs.cost) (grantFront h rs.owner got).1 (grantFront h rs.owner got).2
      exact ⟨rs :: served, left, new, congrArg (rs :: ·) hRest, hQueue, hNew⟩
    · simp only [hAlloc]
      exact KeepsOrder.refl bound (rs :: rest)

/-- Tokens that become free let the front go on, and nobody joins. -/
theorem resourceIncreased_keepsOrder (n : DispatchNode Id) (h : GrpHeap Id) (got : List GrpPtr) :
    ∃ served, KeepsOrder bound served n.lheadNodereq.tokenList
      (n.resourceIncreased h got).1.lheadNodereq.tokenList := by
  unfold resourceIncreased
  split
  · exact KeepsOrder.refl bound _
  · exact pump_keepsOrder bound n.baseNode n.lheadNodereq.press h got n.lheadNodereq.tokenList

/-- **One call** takes requests off the front, or puts one at the end. -/
theorem apply_keepsOrder (n : DispatchNode Id) {call : NodeCall Id} (hSince : call.Since bound) :
    ∃ served, KeepsOrder bound served n.lheadNodereq.tokenList
      (call.apply n).lheadNodereq.tokenList := by
  have hSame := KeepsOrder.refl bound n.lheadNodereq.tokenList
  cases call with
  | allocResource h rs =>
    by_cases hFits : n.baseNode.Fits rs.rs.cost
    · rw [NodeCall.apply, allocResource_of_fits hFits]
      exact hSame
    · rw [NodeCall.apply, allocResource_of_not_fits hFits]
      exact ⟨[], _, [rs], rfl, rfl, List.forall_mem_singleton.mpr hSince⟩
  | freeResource h rip =>
    rw [NodeCall.apply, freeResource]
    split
    · exact resourceIncreased_keepsOrder
        { n with baseNode := n.baseNode.freeToDesc rip.tokenNeed.cost } h []
    · exact hSame
  | resourceChanged h dta =>
    obtain ⟨_, hEq | hEq⟩ := n.resourceChanged_cases dta h [] <;> rw [NodeCall.apply, hEq]
    · exact resourceIncreased_keepsOrder (n.updated dta) h []
    · exact hSame
  | reset => exact hSame
  | popAll h =>
    refine ⟨n.lheadNodereq.tokenList, [], [], (List.append_nil _).symm, ?_, by simp⟩
    exact n.popAll_tokenList h []

/-- **A whole life** does so, by induction on its calls. -/
theorem LivesTo.keepsOrder (a : n.LivesTo bound n') :
    ∃ served, KeepsOrder bound served n.lheadNodereq.tokenList n'.lheadNodereq.tokenList := by
  obtain ⟨tr, hRun, hSince⟩ := a
  induction hRun with
  | nil => exact KeepsOrder.refl bound _
  | @snoc t _ _ call _ hStep ih =>
    obtain ⟨hBefore, hLast⟩ := List.forall_mem_append.mp hSince
    obtain ⟨-, rfl⟩ := hStep
    obtain ⟨served, hOrder⟩ := ih hBefore
    obtain ⟨served', hOrder'⟩ := t.apply_keepsOrder (hLast _ List.mem_cons_self)
    exact hOrder.trans hOrder'

end DispatchNode

-- ---------------------------------------------------------------------------
-- All nodes
-- ---------------------------------------------------------------------------

/-- From `m` to `m'` every online node lived on, or one that came online in
between did. -/
structure NodesLive (bound : GrpPtr) (m m' : Manager ops) : Prop where
  version_le : m.version ≤ m'.version
  nextGrp_le : m.nextGrp ≤ m'.nextGrp
  lives      : ∀ id n', m'.node? id = some n' →
    (∃ n, m.node? id = some n ∧ n.LivesTo bound n') ∨
      ∃ k, m.version ≤ k ∧ k < m'.version ∧
        (DispatchNode.init (BitVec.ofNat 32 k)).LivesTo bound n'

variable {m m₁ m' : Manager ops} {id : Id}

namespace NodesLive

/-- The nodes are the same, under the same version. -/
theorem of_same (hNode : ∀ id n', m'.node? id = some n' → m.node? id = some n')
    (hVersion : m'.version = m.version) (hGrp : m.nextGrp ≤ m'.nextGrp) : NodesLive bound m m' where
  version_le := Nat.le_of_eq hVersion.symm
  nextGrp_le := hGrp
  lives      := fun id n' hn' => Or.inl ⟨n', hNode id n' hn', .refl n'⟩

theorem refl (bound : GrpPtr) (m : Manager ops) : NodesLive bound m m :=
  .of_same (fun _ _ hn => hn) rfl (Nat.le_refl _)

/-- A node that came online on either way did so in between, and lived on. -/
theorem trans (a : NodesLive bound m m₁) (b : NodesLive bound m₁ m') : NodesLive bound m m' where
  version_le := Nat.le_trans a.version_le b.version_le
  nextGrp_le := Nat.le_trans a.nextGrp_le b.nextGrp_le
  lives      := by
    intro id n' hn'
    rcases b.lives id n' hn' with ⟨n₁, hn₁, hLives₁⟩ | ⟨k, hk, hk', hLives⟩
    · rcases a.lives id n₁ hn₁ with ⟨n, hn, hLives⟩ | ⟨k, hk, hk', hLives⟩
      · exact Or.inl ⟨n, hn, hLives.trans hLives₁⟩
      · exact Or.inr ⟨k, hk, Nat.lt_of_lt_of_le hk' b.version_le, hLives.trans hLives₁⟩
    · exact Or.inr ⟨k, Nat.le_trans a.version_le hk, hk', hLives⟩

/-- With an earlier bound, for all nodes. -/
theorem mono (a : NodesLive bound m m') (hBound : bound' ≤ bound) : NodesLive bound' m m' where
  version_le := a.version_le
  nextGrp_le := a.nextGrp_le
  lives      := by
    intro id n' hn'
    rcases a.lives id n' hn' with ⟨n, hn, hLives⟩ | ⟨k, hk, hk', hLives⟩
    · exact Or.inl ⟨n, hn, hLives.mono hBound⟩
    · exact Or.inr ⟨k, hk, hk', hLives.mono hBound⟩

/-- A call on one node. -/
theorem setNode {n n' : DispatchNode Id} (hn : m.node? id = some n) (hLives : n.LivesTo bound n')
    (h : GrpHeap Id) : NodesLive bound m (m.setNode id n' h) where
  version_le := Nat.le_refl _
  nextGrp_le := Nat.le_refl _
  lives      := by
    intro x nx hx
    refine Or.inl ?_
    rw [node?_setNode hn] at hx
    rcases setAt_cases hx with ⟨hSame, rfl⟩ | ⟨-, hx⟩
    · exact ⟨n, (HashTable.find_congr hSame).symm.trans hn, hLives⟩
    · exact ⟨nx, hx, .refl nx⟩

end NodesLive

/-- The node that joins begins its life at the current version. -/
theorem nodeOnline_live (bound : GrpPtr) (h : m.nodeOnline id = some m') :
    NodesLive bound m m' := by
  cases Manager.nodeOnline_way h with
  | noItem _ => exact .refl bound m
  | @joined _ table _ hInsert =>
    refine ⟨Nat.le_succ _, Nat.le_refl _, fun x nx hx => ?_⟩
    have hFind := (HashTable.find_insert (x := x) hInsert).2
    rw [show Manager.node? _ x = table.find x from rfl, hFind] at hx
    split at hx
    · obtain rfl := Option.some.inj hx
      exact Or.inr ⟨m.version, Nat.le_refl _, Nat.lt_succ_self _, .refl _⟩
    · exact Or.inl ⟨nx, hx, .refl nx⟩
  | @known _ table _ hInsert =>
    refine ⟨Nat.le_succ _, Nat.le_refl _, fun x nx hx => Or.inl ⟨nx, ?_, .refl nx⟩⟩
    rw [show Manager.node? _ x = table.find x from rfl, HashTable.find_insert_exist hInsert] at hx
    exact hx

/-- The node that goes is emptied first; the others live on. -/
theorem nodeOffline_live (bound : GrpPtr) (m : Manager ops) (id : Id) :
    NodesLive bound m (m.nodeOffline id).1 := by
  unfold Manager.nodeOffline
  split
  · exact .refl bound m
  · rename_i item hItem
    generalize hPop : item.popAll m.groups [] = res
    obtain ⟨item', h', relative⟩ := res
    -- the node is emptied before it goes
    have hLives : item.LivesTo bound item' := by
      rw [show item' = NodeCall.apply item (.popAll m.groups) by rw [NodeCall.apply, hPop]]
      exact .call _ trivial trivial
    refine (NodesLive.setNode hItem hLives h').trans
      (.of_same (fun x nx hx => ?_) rfl (Nat.le_refl _))
    rw [show Manager.node? _ x = ((m.setNode id item' h').appNodeTable.erase id).1.find x from rfl,
      HashTable.find_erase] at hx
    split at hx
    · cases hx
    · exact hx

/-- A reset is a call on its node. -/
theorem nodeReset_live (bound : GrpPtr) (m : Manager ops) (id : Id) :
    NodesLive bound m (m.nodeReset id) := by
  unfold Manager.nodeReset
  split
  · exact .refl bound m
  · rename_i item hItem
    exact .setNode hItem (.call .reset trivial trivial) m.groups

/-- A message is a call on its node, and a reset after it a second one; for an
unknown id a node is born. -/
theorem rcvd_live {dta : Dispatch2App} {callbacks : List Callback} (bound : GrpPtr)
    (h : m.rcvd id dta = some (m', callbacks)) : NodesLive bound m m' := by
  unfold Manager.rcvd at h
  split at h
  · obtain ⟨m₁, hm₁, heq⟩ := Option.map_eq_some_iff.mp h
    obtain ⟨rfl, -⟩ := Prod.mk.inj heq
    exact nodeOnline_live bound hm₁
  · rename_i item hItem
    have hLives : item.LivesTo bound (item.resourceChanged m.groups dta []).1 :=
      .call (.resourceChanged m.groups dta) trivial trivial
    generalize item.resourceChanged m.groups dta [] = res at h hLives
    obtain ⟨item', h', relative, isReset⟩ := res
    simp only at h hLives
    obtain ⟨rfl, -⟩ := Prod.mk.inj (Option.some.inj h)
    have hSet := NodesLive.setNode hItem hLives h'
    cases isReset with
    | false => exact hSet
    | true => exact hSet.trans (nodeReset_live bound _ id)

-- ---------------------------------------------------------------------------
-- Putting and getting
-- ---------------------------------------------------------------------------

/-- The nodes that a put reports go offline one after the other. -/
theorem checkNodeOutWhenPut_live (bound : GrpPtr) (failRs : List (Resource Id)) (m : Manager ops) :
    NodesLive bound m (m.checkNodeOutWhenPut failRs).1 := by
  induction failRs generalizing m with
  | nil => exact .refl bound m
  | cons rs rest ih =>
    unfold Manager.checkNodeOutWhenPut
    split
    · exact (nodeOffline_live bound m rs.id).trans (ih _)
    · exact ih m

/-- One granted request gives its tokens back to its node. -/
theorem tryToFreeToManager_live (bound : GrpPtr) (m : Manager ops) {rip : TokenReq Id}
    (hGot : rip.stat = .got) (relative : List GrpPtr) :
    NodesLive bound m (m.tryToFreeToManager rip relative).1 := by
  unfold Manager.tryToFreeToManager
  split
  · exact .refl bound m
  · rename_i item hItem
    refine .setNode hItem ?_ _
    rw [item.freeResource_got]
    exact .call (.freeResource m.groups rip) hGot trivial

/-- All requests of a group, by induction on them. -/
theorem tryToPutTokens_live (bound : GrpPtr) (ps : List ReqPtr) (m : Manager ops)
    (relative : List GrpPtr) : NodesLive bound m (m.tryToPutTokens relative ps).1 := by
  induction ps generalizing m relative with
  | nil => exact .refl bound m
  | cons p rest ih =>
    unfold Manager.tryToPutTokens
    split
    · split
      · rename_i hGot
        exact (tryToFreeToManager_live bound m hGot relative).trans (ih _ _)
      · exact ih m relative
    · exact ih m relative

/-- Freeing a group is nothing to the nodes. -/
theorem freeGroup_live (bound : GrpPtr) (m : Manager ops) (gid : GrpPtr) :
    NodesLive bound m (m.freeGroup gid) := by
  unfold Manager.freeGroup
  split
  · exact .refl bound m
  · exact .of_same (fun _ _ hn => hn) rfl (Nat.le_refl _)

/-- A put is a row of calls on the nodes of its group; nobody joins a queue. -/
theorem putTokenGrp_live (bound : GrpPtr) (m : Manager ops) (gid : GrpPtr)
    (failRs : Option (ResourceRing Id)) : NodesLive bound m (m.putTokenGrp gid failRs).1 := by
  have hOut := checkNodeOutWhenPut_live bound ((failRs.map ResourceRing.walk).getD []) m
  unfold Manager.putTokenGrp
  simp only
  split
  · exact hOut
  · exact (hOut.trans (tryToPutTokens_live bound _ _ [])).trans (freeGroup_live bound _ gid)

/-- One request of a new group is placed on its node. -/
theorem tryToAllocFromManager_live (m : Manager ops) {rip : TokenReq Id}
    (hBound : bound ≤ rip.tokenGrp) : NodesLive bound m (m.tryToAllocFromManager rip).1 := by
  unfold Manager.tryToAllocFromManager
  split
  · exact .of_same (fun _ _ hn => hn) rfl (Nat.le_refl _)
  · rename_i item hItem
    exact .setNode hItem (.call (.allocResource m.groups rip.needList) trivial hBound) _

/-- All requests of a new group, by induction on them. -/
theorem tryToGetTokens_live (rips : List (TokenReq Id)) (m : Manager ops) (err : QosError)
    (hBound : ∀ r ∈ rips, bound ≤ r.tokenGrp) :
    NodesLive bound m (m.tryToGetTokens err rips).1 := by
  induction rips generalizing m err with
  | nil => exact .refl bound m
  | cons r rest ih =>
    obtain ⟨hFirst, hRest⟩ := List.forall_mem_cons.mp hBound
    exact (tryToAllocFromManager_live m hFirst).trans (ih _ _ hRest)

/-- A get is a row of calls on its nodes, which may be born for it; what joins a
queue is of the group it made. -/
theorem getTokenGrp_live {ring : ResourceRing Id} {pri : Nat} {res : Manager.GetResult ops}
    (h : m.getTokenGrp ring pri = some res) : NodesLive m.nextGrp m res.manager := by
  rcases Manager.getTokenGrp_cases h with hNothing | ⟨g, m₁, m₂, err, hMade⟩
  · refine .of_same (fun id n hn => ?_) hNothing.version hNothing.nextGrp_le
    unfold Manager.node? at hn
    rwa [hNothing.nodeTable] at hn
  · obtain ⟨_, hIn⟩ := hMade.online
    have hIn := Manager.checkNodeInWhenGet_rule (R := NodesLive m.nextGrp) (.refl m.nextGrp)
      (fun hOnline hRest => (nodeOnline_live m.nextGrp hOnline).trans hRest) hIn
    have hMade₁ : NodesLive m.nextGrp m m₁ :=
      ⟨hIn.version_le, Nat.le_trans (Nat.le_succ _) hIn.nextGrp_le, hIn.lives⟩
    have hMine : ∀ r ∈ g.lheadReqgrp, m.nextGrp ≤ r.tokenGrp := by
      intro r hr
      rw [(hMade.fresh.sound (ring.reqs_ne_nil hMade.need)).owner r hr, hMade.gid]
    have hPlaced := hMade₁.trans (tryToGetTokens_live g.lheadReqgrp m₁ .ok hMine)
    rw [hMade.placed] at hPlaced
    rcases hMade.result with ⟨-, rfl⟩ | ⟨-, -, rfl⟩
    · exact hPlaced
    · exact hPlaced.trans (putTokenGrp_live m.nextGrp _ _ _)

-- ---------------------------------------------------------------------------
-- Runs
-- ---------------------------------------------------------------------------

/-- **Step lemma.** One call of the manager, seen from every node. -/
theorem step_live {s s' : AppState ops} {a : AppAct Id} (hStep : (managerSystem ops).step s a s') :
    NodesLive s.manager.nextGrp s.manager s'.manager := by
  obtain ⟨-, hApply, -⟩ := hStep
  generalize a.call = call at hApply
  generalize a.seen = seen at hApply
  cases call with
  | getTokenGrp ring pri =>
    obtain ⟨res, hGet, heq⟩ := Option.map_eq_some_iff.mp hApply
    exact (Prod.mk.inj heq).1 ▸ getTokenGrp_live hGet
  | putTokenGrp gid failRs =>
    exact (Prod.mk.inj (Option.some.inj hApply)).1 ▸ putTokenGrp_live _ s.manager gid failRs
  | nodeOnline id =>
    obtain ⟨m₁, hOnline, heq⟩ := Option.map_eq_some_iff.mp hApply
    exact (Prod.mk.inj heq).1 ▸ nodeOnline_live _ hOnline
  | nodeOffline id =>
    exact (Prod.mk.inj (Option.some.inj hApply)).1 ▸ nodeOffline_live _ s.manager id
  | nodeReset id =>
    exact (Prod.mk.inj (Option.some.inj hApply)).1 ▸ nodeReset_live _ s.manager id
  | rcvd id dta =>
    obtain ⟨⟨m₁, callbacks⟩, hRcvd, heq⟩ := Option.map_eq_some_iff.mp hApply
    exact (Prod.mk.inj heq).1 ▸ rcvd_live _ hRcvd

/-- **Run lemma.** What joins is of groups made since the run began. -/
theorem Run.live {s t : AppState ops} {tr : List (AppTransition ops)}
    (hRun : Run (managerSystem ops) s tr t) :
    NodesLive s.manager.nextGrp s.manager t.manager := by
  induction hRun with
  | nil => exact .refl _ _
  | snoc _ hStep ih => exact ih.trans ((step_live hStep).mono ih.nextGrp_le)

section Later

variable {s₀ s t : AppState ops} {tr tr' : List (AppTransition ops)} {n n' : DispatchNode Id}

/-- The fence tells that the node did not go offline in between. -/
theorem lives_of_fence (hInit : (managerSystem ops).init s₀)
    (hRun : Run (managerSystem ops) s₀ tr s) (hLater : Run (managerSystem ops) s tr' t)
    (hVersion : t.manager.version ≤ 2 ^ 32) (hn : s.manager.node? id = some n)
    (hn' : t.manager.node? id = some n') (hFence : n'.fenceId = n.fenceId) :
    n.LivesTo s.manager.nextGrp n' := by
  rcases (Run.live hLater).lives id n' hn' with ⟨n₁, hn₁, hLives⟩ | ⟨k, hk, hk', hLives⟩
  · obtain rfl := Option.some.inj (hn.symm.trans hn₁)
    exact hLives
  · -- a version that is not used twice before the counter wraps
    obtain ⟨j, hj, heq⟩ := (Run.inv_any hInit hRun).books.fence_lt id n hn
    have hNew : n'.fenceId = BitVec.ofNat 32 k := hLives.fenceId_eq
    have hMod := congrArg BitVec.toNat (hNew.symm.trans (hFence.trans heq))
    rw [BitVec.toNat_ofNat, BitVec.toNat_ofNat, Nat.mod_eq_of_lt (by omega),
      Nat.mod_eq_of_lt (by omega)] at hMod
    omega

/-- **Projection.** At any moment of any run a node has lived, since it came
online, a run of its own; and up to any later moment it lives on in that run,
unless it went offline. -/
theorem node_lives_alone (hInit : (managerSystem ops).init s₀)
    (hRun : Run (managerSystem ops) s₀ tr s) (hLater : Run (managerSystem ops) s tr' t)
    (hVersion : t.manager.version ≤ 2 ^ 32) (hn : s.manager.node? id = some n)
    (hn' : t.manager.node? id = some n') (hFence : n'.fenceId = n.fenceId) :
    (∃ calls, Run nodeSystem (.init n.fenceId) calls n) ∧ n.LivesTo s.manager.nextGrp n' := by
  refine ⟨?_, lives_of_fence hInit hRun hLater hVersion hn hn' hFence⟩
  rcases (Run.live hRun).lives id n hn with ⟨n₀, hn₀, -⟩ | ⟨k, -, -, hLives⟩
  · rw [AppState.node?_of_init hInit] at hn₀
    cases hn₀
  · have hOwn : n.fenceId = BitVec.ofNat 32 k := hLives.fenceId_eq
    obtain ⟨calls, hCalls, -⟩ := hLives
    exact ⟨calls, hOwn ▸ hCalls⟩

/-- What waits was made before, what joins is made after. -/
theorem owner_lt_of_queued (hi : s.Inv True False) (hn : s.manager.node? id = some n)
    {rs : ResourceList Id} (hrs : rs ∈ n.lheadNodereq.tokenList) :
    rs.owner.grp < s.manager.nextGrp := by
  obtain ⟨r, hr, -, -, rfl⟩ := (((hi.books.node id n hn).balanced trivial).queued rs).mp hrs
  obtain ⟨g, hg, hrg⟩ := mem_reqs.mp hr
  have hOwner : r.needList.owner.grp = g.gid := (hi.books.sound.group g hg).owner r hrg
  rw [hOwner]
  exact hi.records.fresh g.gid g
    (Manager.record?_of_group? (lookup_of_mem hi.books.sound.distinct hg))

/-- **First come, first served.** Between any two moments of any run the queue of
a node that did not go offline lost requests at its front only and got requests
of newer groups at its end; and no request it lost waits any more. -/
theorem queue_keeps_order (hInit : (managerSystem ops).init s₀)
    (hRun : Run (managerSystem ops) s₀ tr s) (hLater : Run (managerSystem ops) s tr' t)
    (hVersion : t.manager.version ≤ 2 ^ 32) (hn : s.manager.node? id = some n)
    (hn' : t.manager.node? id = some n') (hFence : n'.fenceId = n.fenceId) :
    ∃ served rest new, n.lheadNodereq.tokenList = served ++ rest ∧
      n'.lheadNodereq.tokenList = rest ++ new ∧
      (∀ rs ∈ new, s.manager.nextGrp ≤ rs.owner.grp) ∧
      ∀ rs ∈ served, ∀ r ∈ t.manager.groups.reqs, r.needList = rs → r.stat ≠ .init := by
  have hVersion₁ : s.manager.version ≤ 2 ^ 32 :=
    Nat.le_trans (Run.live hLater).version_le hVersion
  have hi : s.Inv True False := Run.inv hInit hRun (fun _ => hVersion₁) False.elim
  have hi' : t.Inv True False := Run.inv hInit (hRun.append hLater) (fun _ => hVersion) False.elim
  have hBooks := (hi.books.node id n hn).balanced trivial
  have hBooks' := (hi'.books.node id n' hn').balanced trivial
  obtain ⟨served, rest, new, hQueue, hQueue', hNew⟩ :=
    (lives_of_fence hInit hRun hLater hVersion hn hn' hFence).keepsOrder
  refine ⟨served, rest, new, hQueue, hQueue', hNew, ?_⟩
  rintro rs hrs r hr rfl hStat
  have hWaited : r.needList ∈ n.lheadNodereq.tokenList := by
    rw [hQueue]
    exact List.mem_append_left _ hrs
  obtain ⟨r₀, -, -, hSame, heq⟩ := (hBooks.queued _).mp hWaited
  have hNeed : r₀.tokenNeed = r.tokenNeed := congrArg ResourceList.rs heq
  have hWaits : r.needList ∈ n'.lheadNodereq.tokenList :=
    (hBooks'.queued _).mpr ⟨r, hr, hStat, hNeed ▸ hSame, rfl⟩
  rw [hQueue'] at hWaits
  rcases List.mem_append.mp hWaits with hRest | hJoined
  · -- it would have been in the queue twice
    have hNodup := hBooks.nodup
    rw [hQueue, List.map_append] at hNodup
    exact List.disjoint_of_nodup_append hNodup (List.mem_map_of_mem hrs) (List.mem_map_of_mem hRest)
  · have hOld := owner_lt_of_queued hi hn hWaited
    exact absurd (hNew _ hJoined) (Nat.not_le_of_lt hOld)

end Later

section PutBack

/-- The first of two groups gives its tokens back, and the second gets them. -/
theorem run_putBack : ∃ tr, Run (managerSystem IdOps.nat) afterSecondGet tr afterFirstPut :=
  ⟨_, Run.nil.snoc (managerSystem_step afterSecondGet (.putTokenGrp 0 none)
    (show 0 ∈ afterSecondGet.held by decide) _)⟩

/-- The second group waited on the node, and waits no more. -/
theorem putBack_nodes :
    ∃ n n', afterSecondGet.manager.node? 1 = some n ∧ afterFirstPut.manager.node? 1 = some n' ∧
      n'.fenceId = n.fenceId ∧ n.lheadNodereq.tokenList.map (·.owner.grp) = [1] ∧
      n'.lheadNodereq.tokenList = [] := by
  have hn : (afterSecondGet.manager.node? 1).isSome = true := by decide
  have hn' : (afterFirstPut.manager.node? 1).isSome = true := by decide
  exact ⟨_, _, (Option.some_get hn).symm, (Option.some_get hn').symm, rfl, rfl, rfl⟩

theorem node_lives_alone_put_back :
    ∃ n n', afterSecondGet.manager.node? 1 = some n ∧ afterFirstPut.manager.node? 1 = some n' ∧
      (∃ calls, Run nodeSystem (.init n.fenceId) calls n) ∧
      n.LivesTo afterSecondGet.manager.nextGrp n' := by
  obtain ⟨tr, hRun⟩ := run_afterSecondGet
  obtain ⟨tr', hLater⟩ := run_putBack
  obtain ⟨n, n', hn, hn', hFence, -, -⟩ := putBack_nodes
  exact ⟨n, n', hn, hn',
    node_lives_alone freshApp_initial hRun hLater (by decide) hn hn' hFence⟩

theorem queue_keeps_order_put_back :
    ∃ n n' served rest new, afterSecondGet.manager.node? 1 = some n ∧
      afterFirstPut.manager.node? 1 = some n' ∧ served.length = 1 ∧
      n.lheadNodereq.tokenList = served ++ rest ∧ n'.lheadNodereq.tokenList = rest ++ new ∧
      ∀ rs ∈ served, ∀ r ∈ afterFirstPut.manager.groups.reqs, r.needList = rs → r.stat ≠ .init := by
  obtain ⟨tr, hRun⟩ := run_afterSecondGet
  obtain ⟨tr', hLater⟩ := run_putBack
  obtain ⟨n, n', hn, hn', hFence, hOld, hNew⟩ := putBack_nodes
  obtain ⟨served, rest, new, hQueue, hQueue', -, hServed⟩ :=
    queue_keeps_order freshApp_initial hRun hLater (by decide) hn hn' hFence
  refine ⟨n, n', served, rest, new, hn, hn', ?_, hQueue, hQueue', hServed⟩
  -- nobody waits any more, so all that waited was served
  obtain ⟨rfl, -⟩ := List.append_eq_nil_iff.mp (hQueue'.symm.trans hNew)
  simpa [hQueue] using congrArg List.length hOld

end PutBack

end DatastorQos
