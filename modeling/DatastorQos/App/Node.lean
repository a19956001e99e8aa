import DatastorQos.App.BaseNode
import DatastorQos.App.NodereqList

/-!
# dispatch_node — one dispatcher node, app side

The model of `sysqos_dispatch_node.c`: the quota counters of a node, the queue
of the requests that wait for its tokens, and the fence id that tells this
incarnation of the node from earlier ones. Every function here runs without
interference; `NodeWakeupConcurrent` cuts them at their locks.

The lists of groups that the source collects (`got_permission_list`,
`fail_permission_list`) are lists of group addresses, the one added last first,
as `list_add` leaves them.
-/

namespace DatastorQos

variable {Id : Type}

/-- `dispatch_node_t`. -/
structure DispatchNode (Id : Type) where
  baseNode     : DispatchBaseNode
  lheadNodereq : NodereqList Id
  fenceId      : BitVec 32
  deriving DecidableEq, Repr

namespace DispatchNode

/-- `dispatch_node_init`. -/
def init (version : BitVec 32) : DispatchNode Id where
  baseNode     := .init
  lheadNodereq := .init
  fenceId      := version

/-- `permission_list_if_final_by_rs_list` and the `list_add` that follows it. -/
def grantFront (h : GrpHeap Id) (owner : ReqPtr) (got : List GrpPtr) : GrpHeap Id × List GrpPtr :=
  match h.toGot owner with
  | (h, .failedNode) | (h, .ok) => (h, owner.grp :: got)
  | (h, _) => (h, got)

/-- The loop of `resource_increased` under the spin lock, on the requests
`tokenList` still queued. -/
def pump (base : DispatchBaseNode) (press : ULong) (h : GrpHeap Id) (got : List GrpPtr) :
    List (ResourceList Id) → DispatchBaseNode × NodereqList Id × GrpHeap Id × List GrpPtr
  | [] => (base, ⟨press, []⟩, h, got)
  | rs :: rest =>
    match base.tryAllocFromDesc rs.rs.cost with
    | (base, .ok) =>
      let (h, got) := grantFront h rs.owner got
      pump base (press - rs.rs.cost) h got rest
    | (base, _) => (base, ⟨press, rs :: rest⟩, h, got)

/-- `resource_increased`. -/
def resourceIncreased (n : DispatchNode Id) (h : GrpHeap Id) (got : List GrpPtr) :
    DispatchNode Id × GrpHeap Id × List GrpPtr :=
  match n.lheadNodereq.front with
  | none => (n, h, got)
  | some _ =>
    let (base, tokens, h, got) :=
      pump n.baseNode n.lheadNodereq.press h got n.lheadNodereq.tokenList
    ({ n with baseNode := base, lheadNodereq := tokens }, h, got)

/-- `resource_changed`; the last component is the returned `is_reset`. -/
def resourceChanged (n : DispatchNode Id) (h : GrpHeap Id) (dta : Dispatch2App)
    (got : List GrpPtr) : DispatchNode Id × GrpHeap Id × List GrpPtr × Bool :=
  let (base, res) := n.baseNode.checkUpdateTotalVersion dta.tokenQuota dta.version
  let n := { n with baseNode := base }
  if res.isIncreased then
    let (n, h, got) := n.resourceIncreased h got
    (n, h, got, res.isReset)
  else (n, h, got, res.isReset)

/-- `reset`. -/
def reset (n : DispatchNode Id) : DispatchNode Id := { n with baseNode := n.baseNode.reset }

/-- `free_resource`: only tokens of this incarnation are credited. -/
def freeResource (n : DispatchNode Id) (h : GrpHeap Id) (rip : TokenReq Id) (got : List GrpPtr) :
    DispatchNode Id × GrpHeap Id × List GrpPtr :=
  if rip.nodeid = n.fenceId then
    { n with baseNode := n.baseNode.freeToDesc rip.tokenNeed.cost }.resourceIncreased h got
  else (n, h, got)

/-- `alloc_resource`: try, try again under the spin lock, else wait. -/
def allocResource (n : DispatchNode Id) (h : GrpHeap Id) (rs : ResourceList Id) :
    DispatchNode Id × GrpHeap Id × QosError :=
  let h := h.setNodeid rs.owner n.fenceId
  match n.baseNode.tryAllocFromDesc rs.rs.cost with
  | (base, .ok) =>
    let (h, err) := h.toGot rs.owner
    ({ n with baseNode := base }, h, err)
  | (base, _) =>
    match base.tryAllocFromDesc rs.rs.cost with
    | (base, .ok) =>
      let (h, err) := h.toGot rs.owner
      ({ n with baseNode := base }, h, err)
    | (base, err) =>
      ({ n with baseNode := base, lheadNodereq := n.lheadNodereq.pushBack rs }, h, err)

/-- The loop of `pop_all` over the requests taken off the queue. -/
def failAll (h : GrpHeap Id) (failed : List GrpPtr) :
    List (ResourceList Id) → GrpHeap Id × List GrpPtr
  | [] => (h, failed)
  | rs :: rest =>
    match h.toFailed rs.owner with
    | (h, .failedNode) => failAll h (rs.owner.grp :: failed) rest
    | (h, _) => failAll h failed rest

/-- `pop_all`. -/
def popAll (n : DispatchNode Id) (h : GrpHeap Id) (failed : List GrpPtr) :
    DispatchNode Id × GrpHeap Id × List GrpPtr :=
  let (tokens, popped) := n.lheadNodereq.popAll
  let (h, failed) := failAll h failed popped
  ({ n with lheadNodereq := tokens }, h, failed)

/-- `get_protocol`; `p` is what the local of `get_press` holds. -/
def getProtocol (n : DispatchNode Id) (p : PressT) : App2Dispatch where
  press      := n.lheadNodereq.getPress p
  version    := n.baseNode.version
  tokenInUse := n.baseNode.tokenInuse

end DispatchNode

/-- The front of the queue, if there is one, does not fit. -/
def FrontBlocked (base : DispatchBaseNode) (tokens : NodereqList Id) : Prop :=
  ∀ rs ∈ tokens.front, base.tokenInuse.toNat + rs.rs.cost.toNat > base.tokenQuota.toNat

/-! ## What each call does -/

theorem frontBlocked_of_empty {base : DispatchBaseNode} {tokens : NodereqList Id}
    (h : tokens.tokenList = []) : FrontBlocked base tokens := by
  simp [FrontBlocked, NodereqList.front, h]

/-- A front the code refuses does not fit, whether or not the sum wraps. -/
theorem frontBlocked_of_not_fits {base : DispatchBaseNode} {tokens : NodereqList Id}
    (h : ∀ rs ∈ tokens.front, ¬ base.Fits rs.rs.cost) : FrontBlocked base tokens := by
  intro rs hrs
  have := h rs hrs
  unfold DispatchBaseNode.Fits at this
  bv_omega

/-- A step that takes no token back and raises no quota leaves the front where
it was. -/
theorem FrontBlocked.mono {base base' : DispatchBaseNode} {tokens tokens' : NodereqList Id}
    (h : FrontBlocked base tokens) (hFront : tokens'.front = tokens.front)
    (hInuse : base.tokenInuse.toNat ≤ base'.tokenInuse.toNat)
    (hQuota : base'.tokenQuota.toNat ≤ base.tokenQuota.toNat) : FrontBlocked base' tokens' := by
  intro rs hrs
  rw [hFront] at hrs
  have := h rs hrs
  omega

namespace DispatchNode

@[simp] theorem grantFront_fst (h : GrpHeap Id) (owner : ReqPtr) (got : List GrpPtr) :
    (grantFront h owner got).1 = (h.toGot owner).1 := by
  unfold grantFront
  split <;> simp_all

/-- The pump stops only at a request that does not fit. -/
theorem pump_stops (base : DispatchBaseNode) (press : ULong) (h : GrpHeap Id)
    (got : List GrpPtr) (tokenList : List (ResourceList Id)) :
    ∀ rs ∈ (pump base press h got tokenList).2.1.front,
      ¬ (pump base press h got tokenList).1.Fits rs.rs.cost := by
  induction tokenList generalizing base press h got with
  | nil => simp [pump, NodereqList.front]
  | cons rs rest ih =>
    unfold pump
    rcases base.tryAllocFromDesc_cases rs.rs.cost with ⟨-, heq⟩ | ⟨hNot, heq⟩
    · rw [heq]
      exact ih _ _ _ _
    · rw [heq]
      simpa [NodereqList.front] using hNot

theorem resourceIncreased_stops (n : DispatchNode Id) (h : GrpHeap Id) (got : List GrpPtr) :
    ∀ rs ∈ (n.resourceIncreased h got).1.lheadNodereq.front,
      ¬ (n.resourceIncreased h got).1.baseNode.Fits rs.rs.cost := by
  unfold resourceIncreased
  split
  · rename_i hNone
    simp [hNone]
  · exact pump_stops _ _ _ _ _

theorem resourceIncreased_frontBlocked (n : DispatchNode Id) (h : GrpHeap Id)
    (got : List GrpPtr) :
    FrontBlocked (n.resourceIncreased h got).1.baseNode
      (n.resourceIncreased h got).1.lheadNodereq :=
  frontBlocked_of_not_fits (n.resourceIncreased_stops h got)

/-- An allocation is granted at once when it fits, and waits otherwise. -/
theorem allocResource_of_fits {n : DispatchNode Id} {h : GrpHeap Id} {rs : ResourceList Id}
    (hFits : n.baseNode.Fits rs.rs.cost) :
    n.allocResource h rs =
      ({ n with baseNode := n.baseNode.chargeSection rs.rs.cost },
        ((h.setNodeid rs.owner n.fenceId).toGot rs.owner).1,
        ((h.setNodeid rs.owner n.fenceId).toGot rs.owner).2) := by
  unfold allocResource
  simp only [DispatchBaseNode.tryAllocFromDesc_of_fits hFits]

theorem allocResource_of_not_fits {n : DispatchNode Id} {h : GrpHeap Id} {rs : ResourceList Id}
    (hNot : ¬ n.baseNode.Fits rs.rs.cost) :
    n.allocResource h rs =
      ({ n with lheadNodereq := n.lheadNodereq.pushBack rs },
        h.setNodeid rs.owner n.fenceId, .pending) := by
  unfold allocResource
  simp only [DispatchBaseNode.tryAllocFromDesc_of_not_fits hNot]

/-- What a message makes of the counters alone. -/
def updated (n : DispatchNode Id) (dta : Dispatch2App) : DispatchNode Id :=
  { n with baseNode := (n.baseNode.checkUpdateTotalVersion dta.tokenQuota dta.version).1 }

/-- A message that raises the quota is followed by the pump, any other by nothing. -/
theorem resourceChanged_cases (n : DispatchNode Id) (dta : Dispatch2App) (h : GrpHeap Id)
    (got : List GrpPtr) :
    ∃ isReset,
      n.resourceChanged h dta got =
        (((n.updated dta).resourceIncreased h got).1, ((n.updated dta).resourceIncreased h got).2.1,
          ((n.updated dta).resourceIncreased h got).2.2, isReset) ∨
      n.resourceChanged h dta got = (n.updated dta, h, got, isReset) := by
  refine ⟨(n.baseNode.checkUpdateTotalVersion dta.tokenQuota dta.version).2.isReset, ?_⟩
  unfold resourceChanged
  simp only
  split
  · exact Or.inl rfl
  · exact Or.inr rfl

@[simp] theorem popAll_tokenList (n : DispatchNode Id) (h : GrpHeap Id) (failed : List GrpPtr) :
    (n.popAll h failed).1.lheadNodereq.tokenList = [] :=
  n.lheadNodereq.popAll_tokenList

end DispatchNode

end DatastorQos
