import Mathlib.Data.List.Flatten
import Mathlib.Logic.Relation
import DatastorQos.Lib.Apportion
import DatastorQos.App.QuotaOffer
import DatastorQos.App.ManagerRuns

/-!
# datastor_qos — what a manager does to its base nodes

Whatever a manager does, each base node sees a sequence of its own calls: a
pump is a row of allocations, a put a row of frees, and a node that goes offline
leaves the next one to start afresh.

* `DispatchBaseNode.UsedTo` — calls of the app's own lead from one base node to
  the other, none of which overflows or frees what is not in use;
* `GrpHeap.demand` — what the requests in memory ask for, which no operation
  changes but a get and the end of a put; while it is a word, so is every sum;
* `step_uses` — every call of a manager is such calls on each base node;
* `rcvd_uses` — and a message is one message and such calls, unless the node was
  not there.
-/

namespace DatastorQos

open Keyed GrpHeap Runs Apportion Relation

variable {Id : Type} {ops : IdOps Id} {calm : Prop}

-- ---------------------------------------------------------------------------
-- One base node
-- ---------------------------------------------------------------------------

namespace BaseOp

/-- Messages come over the network. -/
def IsOwn : BaseOp → Prop
  | .message _ _ => False
  | _ => True

/-- The sum of an allocation does not overflow, and what is freed is in use. -/
def WellUsed (b : DispatchBaseNode) : BaseOp → Prop
  | .alloc cost => b.tokenInuse.toNat + cost.toNat < 2 ^ 64
  | .free cost => cost ≤ b.tokenInuse
  | _ => True

end BaseOp

namespace DispatchBaseNode

/-- `rcvd` of the app, as far as it concerns the base node: an older message
makes it reset. The grants that follow a larger quota are calls of their own. -/
def rcvd (b : DispatchBaseNode) (dta : Dispatch2App) : DispatchBaseNode :=
  match b.checkUpdateTotalVersion dta.tokenQuota dta.version with
  | (b, ⟨_, true⟩) => b.reset
  | (b, ⟨_, false⟩) => b

/-- A call of the app, or the node is made anew. -/
inductive UseStep (b : DispatchBaseNode) : DispatchBaseNode → Prop where
  | own (op : BaseOp) : op.IsOwn → op.WellUsed b → UseStep b (b.apply op)
  | anew : UseStep b .init

/-- Calls of the app's own lead from one to the other. -/
def UsedTo : DispatchBaseNode → DispatchBaseNode → Prop := ReflTransGen UseStep

variable {b b' : DispatchBaseNode}

theorem UsedTo.refl (b : DispatchBaseNode) : b.UsedTo b := ReflTransGen.refl

theorem UsedTo.trans {b₁ : DispatchBaseNode} (h : b.UsedTo b₁) (h' : b₁.UsedTo b') : b.UsedTo b' :=
  ReflTransGen.trans h h'

theorem UsedTo.anew (b : DispatchBaseNode) : b.UsedTo .init := ReflTransGen.single .anew

theorem UsedTo.reset (b : DispatchBaseNode) : b.UsedTo b.reset :=
  ReflTransGen.single (.own .reset trivial trivial)

/-- A grant is one call. -/
theorem UsedTo.charge {cost : ULong} (hFits : b.Fits cost)
    (hSum : b.tokenInuse.toNat + cost.toNat < 2 ^ 64) : b.UsedTo (b.chargeSection cost) := by
  have hStep := UseStep.own (.alloc cost) trivial hSum
  rw [show b.apply (.alloc cost) = (b.tryAllocFromDesc cost).1 from rfl,
    tryAllocFromDesc_of_fits hFits] at hStep
  exact ReflTransGen.single hStep

theorem UsedTo.free {cost : ULong} (hCost : cost ≤ b.tokenInuse) : b.UsedTo (b.freeToDesc cost) :=
  ReflTransGen.single (.own (.free cost) trivial hCost)

end DispatchBaseNode

-- ---------------------------------------------------------------------------
-- What is asked for
-- ---------------------------------------------------------------------------

namespace TokenReqgrp

variable (g : TokenReqgrp Id) (idx : Nat)

/-- The resources the requests of a group are for. -/
def needs : List (Resource Id) := g.lheadReqgrp.map TokenReq.tokenNeed

@[simp] theorem needs_setStat (s : AppTokenStat) : (g.setStat idx s).needs = g.needs := by
  unfold needs setStat Keyed.modify
  rw [List.map_map]
  refine List.map_congr_left fun r _ => ?_
  rw [Function.comp_apply]
  split <;> rfl

@[simp] theorem needs_setNodeid (nodeid : BitVec 32) : (g.setNodeid idx nodeid).needs = g.needs := by
  unfold needs setNodeid Keyed.modify
  rw [List.map_map]
  refine List.map_congr_left fun r _ => ?_
  rw [Function.comp_apply]
  split <;> rfl

@[simp] theorem needs_toGot : (g.toGot idx).1.needs = g.needs := by
  unfold toGot
  rcases g.casStat_cases idx .got with ⟨_, -, -, h⟩ | ⟨-, h⟩ <;> rw [h]
  simp only
  split <;> exact g.needs_setStat idx .got

@[simp] theorem needs_toFailed : (g.toFailed idx).1.needs = g.needs := by
  unfold toFailed
  rcases g.setFailedExist.casStat_cases idx .failed with ⟨_, -, -, h⟩ | ⟨-, h⟩ <;> rw [h]
  · simp only
    split <;> exact g.setFailedExist.needs_setStat idx .failed
  · rfl

end TokenReqgrp

namespace GrpHeap

variable {h h₁ h' : GrpHeap Id}

/-- What all requests in memory ask for. -/
def needs (h : GrpHeap Id) : List (Resource Id) := h.flatMap TokenReqgrp.needs

def demand (h : GrpHeap Id) : ℕ := total Resource.cost h.needs

/-- The cost of all requests, as the groups have them. -/
theorem demand_eq (h : GrpHeap Id) : h.demand = total (fun r => r.tokenNeed.cost) h.reqs := by
  have hNeeds : h.needs = h.reqs.map TokenReq.tokenNeed := List.map_flatMap.symm
  rw [demand, hNeeds, total_map]

/-- A request changes its state. -/
inductive Move (h : GrpHeap Id) : GrpHeap Id → Prop where
  | toGot (p : ReqPtr) : Move h (h.toGot p).1
  | toFailed (p : ReqPtr) : Move h (h.toFailed p).1
  | setNodeid (p : ReqPtr) (nodeid : BitVec 32) : Move h (h.setNodeid p nodeid)

/-- Requests are settled and marked, and no group comes or goes. -/
def MovesTo : GrpHeap Id → GrpHeap Id → Prop := ReflTransGen Move

theorem MovesTo.refl (h : GrpHeap Id) : h.MovesTo h := ReflTransGen.refl

theorem MovesTo.trans (a : h.MovesTo h₁) (b : h₁.MovesTo h') : h.MovesTo h' :=
  ReflTransGen.trans a b

theorem MovesTo.cons (a : h.Move h₁) (b : h₁.MovesTo h') : h.MovesTo h' := ReflTransGen.head a b

/-- A write that keeps what a group asks for keeps what all ask for. -/
theorem needs_modify {p : GrpPtr} {f : TokenReqgrp Id → TokenReqgrp Id}
    (hNeeds : ∀ g, (f g).needs = g.needs) (h : GrpHeap Id) :
    needs (modify TokenReqgrp.gid p f h) = needs h := by
  unfold needs Keyed.modify
  rw [List.flatMap_map]
  refine List.flatMap_congr fun g _ => ?_
  split
  · exact hNeeds g
  · rfl

/-- A request that is settled still asks for the same. -/
theorem Move.needs (a : h.Move h') : h'.needs = h.needs := by
  cases a with
  | toGot p =>
    unfold GrpHeap.toGot
    split
    · exact needs_modify (fun g => g.needs_toGot p.idx) h
    · rfl
  | toFailed p =>
    unfold GrpHeap.toFailed
    split
    · exact needs_modify (fun g => g.needs_toFailed p.idx) h
    · rfl
  | setNodeid p nodeid => exact needs_modify (fun g => g.needs_setNodeid p.idx nodeid) h

/-- So the demand stays as it is. -/
theorem MovesTo.demand (a : h.MovesTo h') : h'.demand = h.demand := by
  have hNeeds : h'.needs = h.needs := by
    induction a with
    | refl => rfl
    | tail _ hLast ih => exact hLast.needs.trans ih
  rw [GrpHeap.demand, hNeeds, GrpHeap.demand]

end GrpHeap

-- ---------------------------------------------------------------------------
-- Books and counters
-- ---------------------------------------------------------------------------

section Books

variable {look : Id → Option (DispatchNode Id)} {version : Nat} {h h' : GrpHeap Id}
  {unplaced freed : List ReqPtr} {id : Id} {n : DispatchNode Id} {r : TokenReq Id}
  {got got' : List GrpPtr}

/-- A request is credited with its cost at most. -/
theorem creditOf_le (freed : List ReqPtr) (id : Id) (fence : BitVec 32) (r : TokenReq Id) :
    (creditOf ops id fence freed r).toNat ≤ r.tokenNeed.cost.toNat := by
  unfold creditOf
  split
  · exact Nat.le_refl _
  · exact Nat.zero_le _

/-- While the demand is a word, what is in use is the sum itself. -/
theorem NodeAccounts.toNat_inuse (hn : NodeAccounts ops True calm h unplaced freed id n)
    (hDemand : h.demand < 2 ^ 64) :
    n.baseNode.tokenInuse.toNat = total (creditOf ops id n.fenceId freed) h.reqs := by
  rw [hn.inuse (Or.inl trivial), gotSum, toNat_sum]
  refine Nat.mod_eq_of_lt (Nat.lt_of_le_of_lt ?_ hDemand)
  rw [h.demand_eq]
  exact total_le_total fun r _ => creditOf_le freed id n.fenceId r

/-- What is not yet granted fits beside what is in use. -/
theorem NodeAccounts.sum_lt (hn : NodeAccounts ops True calm h unplaced freed id n)
    (hDemand : h.demand < 2 ^ 64) (hr : r ∈ h.reqs) (hInit : r.stat = .init) :
    n.baseNode.tokenInuse.toNat + r.tokenNeed.cost.toNat < 2 ^ 64 := by
  have hNone : (creditOf ops id n.fenceId freed r).toNat = 0 := by simp [creditOf, hInit]
  have hLe : total (creditOf ops id n.fenceId freed) h.reqs + r.tokenNeed.cost.toNat ≤ h.demand := by
    rw [h.demand_eq]
    exact total_add_le (fun r _ => creditOf_le freed id n.fenceId r) hr hNone
  rw [hn.toNat_inuse hDemand]
  omega

/-- What a request holds of a node is in use there. -/
theorem NodeAccounts.cost_le (hn : NodeAccounts ops True calm h unplaced freed id n)
    (hDemand : h.demand < 2 ^ 64) (hr : r ∈ h.reqs) (hGot : r.stat = .got) (hNew : r.ptr ∉ freed)
    (hSame : ops.Same id r.tokenNeed.id) (hFence : r.nodeid = n.fenceId) :
    r.tokenNeed.cost ≤ n.baseNode.tokenInuse := by
  have hCredit : creditOf ops id n.fenceId freed r = r.tokenNeed.cost :=
    if_pos ⟨hGot, hFence, hSame, hNew⟩
  rw [BitVec.le_def, hn.toNat_inuse hDemand, ← hCredit]
  exact le_total_of_mem _ hr

-- ---------------------------------------------------------------------------
-- Operations of one node
-- ---------------------------------------------------------------------------

/-- What an operation of a node does to its counters and to memory. -/
structure NodeUses (n : DispatchNode Id) (h : GrpHeap Id) (n' : DispatchNode Id)
    (h' : GrpHeap Id) : Prop where
  base  : n.baseNode.UsedTo n'.baseNode
  moves : h.MovesTo h'

theorem NodeUses.refl (n : DispatchNode Id) (h : GrpHeap Id) : NodeUses n h n h := ⟨.refl _, .refl h⟩

/-- The pump is a row of allocations. -/
theorem pump_uses (tokenList : List (ResourceList Id))
    (ha : Accounts ops True calm look version h unplaced freed) (hn : look id = some n)
    (hDemand : h.demand < 2 ^ 64) (hTokens : n.lheadNodereq.tokenList = tokenList)
    {base : DispatchBaseNode} {tokens : NodereqList Id}
    (heq : DispatchNode.pump n.baseNode n.lheadNodereq.press h got tokenList =
      (base, tokens, h', got')) :
    n.baseNode.UsedTo base ∧ h.MovesTo h' := by
  induction tokenList generalizing look h n got with
  | nil =>
    simp only [DispatchNode.pump, Prod.mk.injEq] at heq
    obtain ⟨rfl, -, rfl, -⟩ := heq
    exact ⟨.refl _, .refl _⟩
  | cons rs rest ih =>
    unfold DispatchNode.pump at heq
    rcases n.baseNode.tryAllocFromDesc_cases rs.rs.cost with ⟨hFits, hAlloc⟩ | ⟨-, hAlloc⟩
    · rw [hAlloc] at heq
      simp only at heq
      have hNode := ha.node id n hn
      obtain ⟨r, hWaits, rfl⟩ := (hNode.queued rs).mp (by simp [hTokens])
      obtain ⟨_, -, -, -, ha₁⟩ := ha.grantFront hn hTokens hFits
      have hMove : h.Move (DispatchNode.grantFront h r.needList.owner got).1 := by
        rw [DispatchNode.grantFront_fst]
        exact .toGot _
      rw [← DispatchNode.grantFront_fst h r.needList.owner got] at ha₁
      obtain ⟨hUsed, hMoves⟩ := ih ha₁ (setAt_self look id _)
        (by rw [(MovesTo.cons hMove (.refl _)).demand]; exact hDemand) rfl heq
      exact ⟨(DispatchBaseNode.UsedTo.charge hFits
        (hNode.sum_lt hDemand hWaits.mem hWaits.stat)).trans hUsed, .cons hMove hMoves⟩
    · rw [hAlloc] at heq
      simp only [Prod.mk.injEq] at heq
      obtain ⟨rfl, -, rfl, -⟩ := heq
      exact ⟨.refl _, .refl _⟩

/-- Serving the queue is a row of grants, each with room for its sum: what is
granted is asked for, and the demand is a word. -/
theorem resourceIncreased_uses (got : List GrpPtr)
    (ha : Accounts ops True calm look version h unplaced freed) (hn : look id = some n)
    (hDemand : h.demand < 2 ^ 64) :
    NodeUses n h (n.resourceIncreased h got).1 (n.resourceIncreased h got).2.1 := by
  unfold DispatchNode.resourceIncreased
  split
  · exact .refl n h
  · obtain ⟨hUsed, hMoves⟩ := pump_uses _ ha hn hDemand rfl rfl
    exact ⟨hUsed, hMoves⟩

/-- After the message itself, a row of grants. -/
theorem resourceChanged_uses (got : List GrpPtr)
    (ha : Accounts ops True calm look version h unplaced freed) (hn : look id = some n)
    (hDemand : h.demand < 2 ^ 64) (dta : Dispatch2App) :
    NodeUses (n.updated dta) h (n.resourceChanged h dta got).1 (n.resourceChanged h dta got).2.1 := by
  obtain ⟨_, hEq | hEq⟩ := n.resourceChanged_cases dta h got <;> rw [hEq]
  · have ha₁ := ha.setBase hn
      (n.baseNode.checkUpdateTotalVersion_tokenInuse dta.tokenQuota dta.version)
    exact resourceIncreased_uses got ha₁ (setAt_self look id _) hDemand
  · exact .refl _ h

/-- One free of what was granted, and a row of grants. -/
theorem freeResource_uses (got : List GrpPtr)
    (ha : Accounts ops True calm look version h unplaced freed) (hr : r ∈ h.reqs)
    (hGot : r.stat = .got) (hNew : r.ptr ∉ freed) (hn : look r.tokenNeed.id = some n)
    (hDemand : h.demand < 2 ^ 64) :
    NodeUses n h (n.freeResource h r got).1 (n.freeResource h r got).2.1 := by
  unfold DispatchNode.freeResource
  split
  · rename_i hFence
    have hCost := (ha.node _ n hn).cost_le hDemand hr hGot hNew (ops.same_refl _) hFence
    have ha₁ := ha.freeSelf hr hGot hNew hn (ops.same_refl _) hFence
    obtain ⟨hUsed, hMoves⟩ := resourceIncreased_uses got ha₁ (setAt_self look _ _) hDemand
    exact ⟨(DispatchBaseNode.UsedTo.free hCost).trans hUsed, hMoves⟩
  · exact .refl n h

/-- One grant, or none. -/
theorem allocResource_uses (ha : Accounts ops True calm look version h (r.ptr :: unplaced) freed)
    (hr : r ∈ h.reqs) (hInit : r.stat = .init) (hn : look r.tokenNeed.id = some n)
    (hDemand : h.demand < 2 ^ 64) :
    NodeUses n h (n.allocResource h r.needList).1 (n.allocResource h r.needList).2.1 := by
  by_cases hFits : n.baseNode.Fits r.needList.rs.cost
  · rw [DispatchNode.allocResource_of_fits hFits]
    exact ⟨.charge hFits ((ha.node _ n hn).sum_lt hDemand hr hInit),
      .cons (.setNodeid _ _) (.cons (.toGot _) (.refl _))⟩
  · rw [DispatchNode.allocResource_of_not_fits hFits]
    exact ⟨.refl _, .cons (.setNodeid _ _) (.refl _)⟩

/-- Requests fail one after the other. -/
theorem failAll_moves (h : GrpHeap Id) (failed : List GrpPtr) (popped : List (ResourceList Id)) :
    h.MovesTo (DispatchNode.failAll h failed popped).1 := by
  induction popped generalizing h failed with
  | nil => exact .refl h
  | cons rs rest ih =>
    have hFirst := Move.toFailed (h := h) rs.owner
    unfold DispatchNode.failAll
    split
    all_goals
      rename_i heq
      rw [heq] at hFirst
      exact .cons hFirst (ih _ _)

end Books

-- ---------------------------------------------------------------------------
-- Operations of the manager
-- ---------------------------------------------------------------------------

/-- The base node of an id: a node that is not there will start like any other. -/
def Manager.base (m : Manager ops) (id : Id) : DispatchBaseNode :=
  ((m.node? id).map DispatchNode.baseNode).getD .init

/-- Calls of the app's own on every base node, and moves in memory. -/
structure Uses (m m' : Manager ops) : Prop where
  bases : ∀ id, (m.base id).UsedTo (m'.base id)
  moves : m.groups.MovesTo m'.groups

variable {m m₁ m' : Manager ops} {id : Id} {n n' : DispatchNode Id} {h : GrpHeap Id}

theorem Manager.base_of_node (hn : m.node? id = some n) : m.base id = n.baseNode := by
  unfold base
  rw [hn]
  rfl

theorem Manager.base_of_none (hn : m.node? id = none) : m.base id = .init := by
  unfold base
  rw [hn]
  rfl

/-- Writing back a node shows at its id only. -/
theorem Manager.base_setNode (hn : m.node? id = some n) (x : Id) :
    (m.setNode id n' h).base x = if ops.Same id x then n'.baseNode else m.base x := by
  unfold base
  rw [node?_setNode hn]
  unfold setAt
  split <;> rfl

/-- A node that leaves is as one that never came. -/
theorem Manager.base_erase (m : Manager ops) (id : Id) (cache : MemoryCache) (x : Id) :
    { m with
      appNodeTable     := (m.appNodeTable.erase id).1
      managerItemCache := cache }.base x = if ops.Same id x then .init else m.base x := by
  unfold base node?
  rw [HashTable.find_erase]
  split <;> rfl

namespace Uses

theorem refl (m : Manager ops) : Uses m m := ⟨fun _ => .refl _, .refl _⟩

theorem trans (a : Uses m m₁) (b : Uses m₁ m') : Uses m m' :=
  ⟨fun id => (a.bases id).trans (b.bases id), a.moves.trans b.moves⟩

theorem demand (a : Uses m m') : m'.groups.demand = m.groups.demand := a.moves.demand

/-- Nothing that matters here was written. -/
theorem of_same (hBase : ∀ id, m'.base id = m.base id) (hGroups : m'.groups = m.groups) :
    Uses m m' :=
  ⟨fun id => by rw [hBase]; exact .refl _, by rw [hGroups]; exact .refl _⟩

/-- What a node did, seen from the manager. -/
theorem setNode (hn : m.node? id = some n) (hUses : NodeUses n m.groups n' h) :
    Uses m (m.setNode id n' h) where
  bases x := by
    rw [Manager.base_setNode hn]
    split
    · rename_i hSame
      rw [Manager.base_of_node ((HashTable.find_congr hSame).symm.trans hn)]
      exact hUses.base
    · exact .refl _
  moves := hUses.moves

end Uses

/-- A node that comes online starts afresh. -/
theorem nodeOnline_base (h : m.nodeOnline id = some m') (x : Id) : m'.base x = m.base x := by
  have hJoin := nodeOnline_joins h
  cases hx : m'.node? x with
  | none =>
    rw [Manager.base_of_none hx, Manager.base_of_none]
    refine Option.eq_none_iff_forall_not_mem.mpr fun n hn => ?_
    rw [hJoin.kept x n hn] at hx
    cases hx
  | some n =>
    rw [Manager.base_of_node hx]
    rcases hJoin.new x n hx with hOld | ⟨hNone, version, rfl⟩
    · rw [Manager.base_of_node hOld]
    · rw [Manager.base_of_none hNone]
      rfl

/-- A node that comes online starts as every base node does. -/
theorem nodeOnline_uses (h : m.nodeOnline id = some m') : Uses m m' :=
  .of_same (nodeOnline_base h) (nodeOnline_groups h)

/-- A node that goes offline leaves the next one to start afresh. -/
theorem nodeOffline_uses (m : Manager ops) (id : Id) : Uses m (m.nodeOffline id).1 := by
  unfold Manager.nodeOffline
  split
  · exact .refl m
  · rename_i item hItem
    have hUses : NodeUses item m.groups (item.popAll m.groups []).1 (item.popAll m.groups []).2.1 :=
      ⟨.refl _, failAll_moves m.groups [] item.lheadNodereq.popAll.2⟩
    refine (Uses.setNode hItem hUses).trans ⟨fun x => ?_, .refl _⟩
    rw [Manager.base_erase]
    split
    · exact .anew _
    · exact .refl _

/-- A reset is a call of the app's own. -/
theorem nodeReset_uses (m : Manager ops) (id : Id) : Uses m (m.nodeReset id) := by
  unfold Manager.nodeReset
  split
  · exact .refl m
  · rename_i item hItem
    exact .setNode hItem ⟨.reset _, .refl _⟩

/-- A reset shows at its id only. -/
theorem nodeReset_base (hn : m.node? id = some n) (x : Id) :
    (m.nodeReset id).base x = if ops.Same id x then n.baseNode.reset else m.base x := by
  unfold Manager.nodeReset
  rw [hn]
  exact Manager.base_setNode hn x

/-- The nodes that a put reports go, and their base nodes with them. -/
theorem checkNodeOutWhenPut_uses (failRs : List (Resource Id)) (m : Manager ops) :
    Uses m (m.checkNodeOutWhenPut failRs).1 := by
  induction failRs generalizing m with
  | nil => exact .refl m
  | cons rs rest ih =>
    unfold Manager.checkNodeOutWhenPut
    split
    · exact (nodeOffline_uses m rs.id).trans (ih _)
    · exact ih m

/-- The nodes of a get come online one after the other. -/
theorem checkNodeInWhenGet_uses {rs : List (Resource Id)}
    (h : m.checkNodeInWhenGet rs = some m') : Uses m m' :=
  Manager.checkNodeInWhenGet_rule (R := Uses) .refl
    (fun hOnline hRest => (nodeOnline_uses hOnline).trans hRest) h

/-- Calls of the app's own on every base node, and no more than `asks` is asked for
on top. -/
structure UsesUpTo (asks : ℕ) (m m' : Manager ops) : Prop where
  bases  : ∀ id, (m.base id).UsedTo (m'.base id)
  demand : m'.groups.demand ≤ m.groups.demand + asks

theorem Uses.upTo (a : Uses m m') : UsesUpTo 0 m m' := ⟨a.bases, Nat.le_of_eq a.demand⟩

theorem UsesUpTo.trans {asks : ℕ} (a : UsesUpTo asks m m₁) (b : UsesUpTo 0 m₁ m') :
    UsesUpTo asks m m' :=
  ⟨fun id => (a.bases id).trans (b.bases id), Nat.le_trans b.demand a.demand⟩

section Requests

variable {unplaced freed : List ReqPtr} {r : TokenReq Id} {gid : GrpPtr}

/-- One request gives its tokens back, if its node is there. -/
theorem tryToFreeToManager_uses (relative : List GrpPtr) (ha : m.Books True calm [] freed)
    (hr : r ∈ m.groups.reqs) (hGot : r.stat = .got) (hNew : r.ptr ∉ freed)
    (hDemand : m.groups.demand < 2 ^ 64) : Uses m (m.tryToFreeToManager r relative).1 := by
  unfold Manager.tryToFreeToManager
  split
  · exact .refl m
  · rename_i item hItem
    exact .setNode hItem (freeResource_uses relative ha hr hGot hNew hItem hDemand)

/-- The put loop is a row of frees. -/
theorem tryToPutTokens_uses {g : TokenReqgrp Id} (hz : g.initNr = 0) (ha : m.Books True calm [] [])
    (hg : group? m.groups g.gid = some g) (hDemand : m.groups.demand < 2 ^ 64) :
    Uses m (m.tryToPutTokens [] (g.lheadReqgrp.map TokenReq.ptr)).1 := by
  have hSettled := fun {m' relative freed} (he : LoopEffect True calm m [] freed m' relative) =>
    he.settles.choose_spec.2.kept g.gid g hg hz
  refine (tryToPutTokens_rule
    (P := fun m' relative freed => LoopEffect True calm m [] freed m' relative ∧ Uses m m')
    (fun m' relative freed he => ⟨he.1.books.sound, hSettled he.1⟩)
    (fun m' relative freed r ⟨he, hUses⟩ hr hGot hNew => ?_) g.lheadReqgrp (fun _ hr => hr)
    (ha.sound.group g (mem_of_lookup hg)).nodup_ptr m [] [] (by simp)
    ⟨⟨ha, [], rfl, .refl ha.sound⟩, .refl m⟩).2
  have hrm : r ∈ m'.groups.reqs := mem_reqs.mpr ⟨g, mem_of_lookup (hSettled he), hr⟩
  have hStep := tryToFreeToManager_effect relative he.books hrm hGot hNew
  obtain ⟨settled, hRel, hSettles⟩ := he.settles
  obtain ⟨settled', hRel', hSettles'⟩ := hStep.settles
  refine ⟨⟨hStep.books, settled' ++ settled, ?_, hSettles.trans hSettles'⟩,
    hUses.trans (tryToFreeToManager_uses relative he.books hrm hGot hNew ?_)⟩
  · rw [hRel', hRel, List.append_assoc]
  · rw [hUses.demand]
    exact hDemand

/-- One group less asks for no more. -/
theorem demand_erase_le (gid : GrpPtr) (h : GrpHeap Id) :
    demand (erase TokenReqgrp.gid gid h) ≤ h.demand := by
  unfold demand needs Keyed.erase
  exact total_le_of_sublist _ (List.filter_sublist.flatMap _)

theorem freeGroup_demand (m : Manager ops) (gid : GrpPtr) :
    (m.freeGroup gid).groups.demand ≤ m.groups.demand := by
  unfold Manager.freeGroup
  split
  · exact Nat.le_refl _
  · exact demand_erase_le gid m.groups

theorem freeGroup_base (m : Manager ops) (gid : GrpPtr) (id : Id) :
    (m.freeGroup gid).base id = m.base id := by
  unfold Manager.freeGroup
  split <;> rfl

/-- A group that is freed takes its demand along. -/
theorem freeGroup_uses (m : Manager ops) (gid : GrpPtr) : UsesUpTo 0 m (m.freeGroup gid) where
  bases id := by
    rw [freeGroup_base]
    exact .refl _
  demand := freeGroup_demand m gid

/-- A put is frees of what was granted, and the grants they make room for. -/
theorem putTokenGrp_uses {g : TokenReqgrp Id} (hz : g.initNr = 0) (ha : m.Books True False [] [])
    (hg : group? m.groups g.gid = some g) (hDemand : m.groups.demand < 2 ^ 64)
    (failRs : Option (ResourceRing Id)) : UsesUpTo 0 m (m.putTokenGrp g.gid failRs).1 := by
  have hOut := checkNodeOutWhenPut_effect ((failRs.map ResourceRing.walk).getD []) ha False.elim
  have hUses := checkNodeOutWhenPut_uses ((failRs.map ResourceRing.walk).getD []) m
  have hg₁ := hOut.delivers.kept g.gid g hg hz
  unfold Manager.putTokenGrp
  simp only [hg₁]
  refine (hUses.trans (tryToPutTokens_uses hz hOut.books hg₁ ?_)).upTo.trans (freeGroup_uses _ _)
  rw [hUses.demand]
  exact hDemand

/-- One request is placed, or failed where its node is gone. -/
theorem tryToAllocFromManager_uses (ha : m.Books True calm (r.ptr :: unplaced) freed)
    (hr : r ∈ m.groups.reqs) (hInit : r.stat = .init) (hDemand : m.groups.demand < 2 ^ 64) :
    Uses m (m.tryToAllocFromManager r).1 := by
  unfold Manager.tryToAllocFromManager
  split
  · exact ⟨fun _ => .refl _, .cons (.toFailed _) (.refl _)⟩
  · rename_i item hItem
    exact .setNode hItem (allocResource_uses ha hr hInit hItem hDemand)

/-- The get loop is a row of allocations. -/
theorem tryToGetTokens_uses (err : QosError) (rips : List (TokenReq Id))
    (ha : m.Books True calm (rips.map TokenReq.ptr) [])
    (hMine : ∀ r ∈ rips, r ∈ m.groups.reqs ∧ r.stat = .init) (hDemand : m.groups.demand < 2 ^ 64) :
    Uses m (m.tryToGetTokens err rips).1 := by
  induction rips generalizing m err with
  | nil => exact .refl m
  | cons r rest ih =>
    obtain ⟨hr, hInit⟩ := hMine r List.mem_cons_self
    have hNodup := ha.unplaced_nodup
    rw [List.map_cons] at ha hNodup
    have hPlace := tryToAllocFromManager_effect ha hr hInit
    have hUses := tryToAllocFromManager_uses ha hr hInit hDemand
    have hBooks : (m.tryToAllocFromManager r).1.Books True calm (rest.map TokenReq.ptr) [] := by
      unfold Manager.Books
      rw [(tryToAllocFromManager_caches m r).version_eq]
      exact hPlace.accounts
    refine hUses.trans (ih _ hBooks (fun x hx => ?_) (by rw [hUses.demand]; exact hDemand))
    obtain ⟨hxr, hxInit⟩ := hMine x (List.mem_cons_of_mem _ hx)
    refine ⟨hPlace.others x hxr fun hp => ?_, hxInit⟩
    exact (List.nodup_cons.mp hNodup).1 (hp ▸ List.mem_map_of_mem hx)

end Requests

-- ---------------------------------------------------------------------------
-- Calls
-- ---------------------------------------------------------------------------

/-- A get adds what its group asks for to the demand, before it places any
request. -/
theorem getTokenGrp_uses {ring : ResourceRing Id} {pri : Nat} {res : Manager.GetResult ops}
    (ha : m.Books True False [] []) (hFresh : ∀ g ∈ m.groups, g.gid < m.nextGrp)
    (hGet : m.getTokenGrp ring pri = some res) (hVersion : res.manager.version ≤ 2 ^ 32)
    (hDemand : m.groups.demand + total Resource.cost ring.walk < 2 ^ 64) :
    UsesUpTo (total Resource.cost ring.walk) m res.manager := by
  rcases Manager.getTokenGrp_cases hGet with hNothing | ⟨g, m₁, m₂, err, hMade⟩
  · refine ⟨fun id => ?_, by rw [hNothing.groups]; exact Nat.le_add_right _ _⟩
    unfold Manager.base Manager.node?
    rw [hNothing.nodeTable]
    exact .refl _
  · have hCaches := tryToGetTokens_caches g.lheadReqgrp m₁ .ok
    rw [hMade.placed] at hCaches
    have hVersion₁ : m₁.version ≤ 2 ^ 32 := by
      rw [← hCaches.version_eq]
      rcases hMade.result with ⟨-, rfl⟩ | ⟨-, -, rfl⟩
      · exact hVersion
      · exact Nat.le_trans (putTokenGrp_fences m₂ m.nextGrp none).version_le hVersion
    have he := hMade.effect ha hFresh fun _ => hVersion₁
    obtain ⟨caches, hIn⟩ := hMade.online
    have hUses := checkNodeInWhenGet_uses hIn
    -- the new group asks for what the ring does
    have hSum : m₁.groups.demand = total Resource.cost ring.walk + m.groups.demand := by
      have hNew : total Resource.cost g.needs = total Resource.cost ring.walk := by
        rw [show g.needs = ring.walk.reverse from hMade.need]
        exact total_perm _ ring.walk.reverse_perm
      rw [he.groups_eq, ← hNew]
      unfold demand needs
      rw [List.flatMap_cons]
      simp only [total, List.map_append, List.sum_append]
    have hg := mem_of_lookup he.new
    have hPlaced := tryToGetTokens_uses .ok g.lheadReqgrp he.online
      (fun r hr => ⟨mem_reqs.mpr ⟨g, hg, hr⟩, hMade.fresh.stat_init r hr⟩) (by omega)
    rw [hMade.placed] at hPlaced
    have hUsed : UsesUpTo (total Resource.cost ring.walk) m m₂ := by
      refine ⟨fun id => (hUses.trans hPlaced).bases id, ?_⟩
      rw [hPlaced.demand, hSum]
      omega
    rcases hMade.result with ⟨-, rfl⟩ | ⟨hNotOk, hNotPending, rfl⟩
    · exact hUsed
    · -- the group failed, and is put
      obtain ⟨g', hg', hErr⟩ := he.placed.group
      have hSound := he.placed.books.sound.group g' (mem_of_lookup hg')
      obtain ⟨hz, -⟩ := Manager.GetMade.failed hErr hSound hNotOk hNotPending
      have hgid := key_of_lookup hg'
      show UsesUpTo _ m (m₂.putTokenGrp m.nextGrp none).1
      rw [← hgid] at hg' ⊢
      refine hUsed.trans (putTokenGrp_uses hz he.placed.books hg' ?_ none)
      rw [hPlaced.demand]
      omega

/-- A message that makes the node reset does nothing else. -/
theorem resourceChanged_isReset (n : DispatchNode Id) (dta : Dispatch2App) (h : GrpHeap Id)
    (got : List GrpPtr) :
    n.resourceChanged h dta got = (n, h, got, true) ∧ n.baseNode.rcvd dta = n.baseNode.reset ∨
      (n.resourceChanged h dta got).2.2.2 = false ∧
        n.baseNode.rcvd dta = (n.updated dta).baseNode := by
  unfold DispatchNode.resourceChanged DispatchNode.updated DispatchBaseNode.rcvd
  rcases n.baseNode.checkUpdateTotalVersion_cases dta.tokenQuota dta.version with
    ⟨-, e⟩ | ⟨-, e⟩ | ⟨-, -, e⟩ | ⟨-, -, e⟩ | ⟨-, -, e⟩ <;> rw [e]
  · exact Or.inl ⟨rfl, rfl⟩
  all_goals exact Or.inr ⟨rfl, rfl⟩

/-- **A message** is one message to the node it is for, and then calls of its own:
unless the node is not there. -/
theorem rcvd_uses {dta : Dispatch2App} {callbacks : List Callback} {unplaced freed : List ReqPtr}
    (ha : m.Books True calm unplaced freed) (hRcvd : m.rcvd id dta = some (m', callbacks))
    (hDemand : m.groups.demand < 2 ^ 64) :
    m'.groups.demand = m.groups.demand ∧ ∀ x,
      ops.Same id x ∧ m.node? x = none ∧ m'.base x = .init ∨
        ops.Same id x ∧ (m.node? x).isSome ∧ ((m.base x).rcvd dta).UsedTo (m'.base x) ∨
          ¬ ops.Same id x ∧ m'.base x = m.base x := by
  unfold Manager.rcvd at hRcvd
  split at hRcvd
  · rename_i hNone
    obtain ⟨m₁, hOnline, heq⟩ := Option.map_eq_some_iff.mp hRcvd
    obtain ⟨rfl, -⟩ := Prod.mk.inj heq
    refine ⟨(nodeOnline_uses hOnline).demand, fun x => ?_⟩
    rw [nodeOnline_base hOnline]
    by_cases hSame : ops.Same id x
    · have hOff : m.node? x = none := (HashTable.find_congr hSame).symm.trans hNone
      exact Or.inl ⟨hSame, hOff, Manager.base_of_none hOff⟩
    · exact Or.inr (Or.inr ⟨hSame, rfl⟩)
  · rename_i item hItem
    have hUses := resourceChanged_uses [] ha hItem hDemand dta
    have hChanged := resourceChanged_isReset item dta m.groups []
    generalize item.resourceChanged m.groups dta [] = res at hRcvd hUses hChanged
    obtain ⟨item', h', relative, isReset⟩ := res
    simp only [Option.some.injEq, Prod.mk.injEq] at hRcvd hUses hChanged
    obtain ⟨rfl, -⟩ := hRcvd
    have hOther : ∀ x, ¬ ops.Same id x → (m.setNode id item' h').base x = m.base x :=
      fun x hNot => (Manager.base_setNode hItem x).trans (if_neg hNot)
    have hSelf : (m.setNode id item' h').node? id = some item' := by
      rw [node?_setNode hItem]
      exact setAt_self _ _ _
    refine ⟨?_, fun x => ?_⟩
    · rw [← hUses.moves.demand]
      split
      · exact (nodeReset_uses (m.setNode id item' h') id).demand
      · rfl
    by_cases hSame : ops.Same id x
    · have hThere : m.node? x = some item := (HashTable.find_congr hSame).symm.trans hItem
      refine Or.inr (Or.inl ⟨hSame, by rw [hThere]; rfl, ?_⟩)
      rw [Manager.base_of_node hThere]
      rcases hChanged with ⟨⟨rfl, -, -, rfl⟩, heq⟩ | ⟨rfl, heq⟩ <;> rw [heq]
      · rw [if_pos rfl, nodeReset_base hSelf, if_pos hSame]
        exact .refl _
      · rw [if_neg Bool.false_ne_true, Manager.base_setNode hItem, if_pos hSame]
        exact hUses.base
    · refine Or.inr (Or.inr ⟨hSame, ?_⟩)
      rcases hChanged with ⟨⟨-, -, -, rfl⟩, -⟩ | ⟨rfl, -⟩
      · rw [if_pos rfl, nodeReset_base hSelf, if_neg hSame, hOther x hSame]
      · rw [if_neg Bool.false_ne_true, hOther x hSame]

/-- What a call asks for. -/
def ManagerCall.asks : ManagerCall Id → ℕ
  | .getTokenGrp ring _ => total Resource.cost ring.walk
  | _ => 0

/-- What the groups in memory ask for is a word, also with what the call asks for. -/
def AppTransition.Modest (x : AppTransition ops) : Prop :=
  x.pre.manager.groups.demand + x.act.call.asks < 2 ^ 64

/-- **Step lemma.** A call other than `rcvd` is calls of the app's own on each base
node. -/
theorem step_uses {s s' : AppState ops} {a : AppAct Id} (hi : s.Inv True False)
    (hStep : (managerSystem ops).step s a s') (hVersion : s'.manager.version ≤ 2 ^ 32)
    (hModest : AppTransition.Modest ⟨s, a, s'⟩) (hNot : ∀ id dta, a.call ≠ .rcvd id dta) :
    UsesUpTo a.call.asks s.manager s'.manager := by
  obtain ⟨hLegal, hApply, -⟩ := hStep
  obtain ⟨call, seen⟩ := a
  simp only at hLegal hApply hNot
  cases call with
  | getTokenGrp ring pri =>
    obtain ⟨res, hGet, heq⟩ := Option.map_eq_some_iff.mp hApply
    obtain ⟨hManager, -⟩ := Prod.mk.inj heq
    rw [← hManager] at hVersion ⊢
    exact getTokenGrp_uses hi.books hi.fresh hGet hVersion hModest
  | putTokenGrp gid failRs =>
    obtain ⟨g, hg, hz⟩ := (hi.held gid).mp hLegal
    obtain ⟨hManager, -⟩ := Prod.mk.inj (Option.some.inj hApply)
    have hgid := key_of_lookup hg
    subst hgid
    rw [← hManager]
    exact putTokenGrp_uses hz hi.books hg hModest failRs
  | nodeOnline x =>
    obtain ⟨m₁, hOnline, heq⟩ := Option.map_eq_some_iff.mp hApply
    exact (Prod.mk.inj heq).1 ▸ (nodeOnline_uses hOnline).upTo
  | nodeOffline x =>
    exact (Prod.mk.inj (Option.some.inj hApply)).1 ▸ (nodeOffline_uses s.manager x).upTo
  | nodeReset x =>
    exact (Prod.mk.inj (Option.some.inj hApply)).1 ▸ (nodeReset_uses s.manager x).upTo
  | rcvd x dta => exact absurd rfl (hNot x dta)

end DatastorQos
