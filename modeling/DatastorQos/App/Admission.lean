import DatastorQos.App.Node
import DatastorQos.Dispatcher.AppNode

/-!
# datastor_qos — who is admitted

Both sides admit a request by comparing a sum with a quota: `check_alloc_from_desc`
for the requests of an app, `dtn_alloc` for those of its clients. The sum is one of
`unsigned long`, and costs come in unchecked.

* `admission_exact_iff` — on either side a request is granted exactly if it is
  within the quota, and charged with its cost, exactly if the sum fits in one
  word;
* `wrapped_sum_is_admitted` — a request of `2 ^ 64 - 1` tokens that is granted,
  and leaves less in use than before.
-/

namespace DatastorQos

variable {Id : Type}

/-- A request is granted exactly if what it makes is within the quota, and then
that is in use. -/
structure AdmitsExactly (tokenInuse tokenQuota cost : ULong) (granted : Prop)
    (tokenInuse' : ULong) : Prop where
  granted_iff : granted ↔ tokenInuse.toNat + cost.toNat ≤ tokenQuota.toNat
  charged     : granted → tokenInuse'.toNat = tokenInuse.toNat + cost.toNat

/-- The sum is one word. -/
def SumFits (tokenInuse cost : ULong) : Prop := tokenInuse.toNat + cost.toNat < 2 ^ 64

/-- An admission that looks at the sum as `unsigned long` computes it. A sum that
wraps is below what is in use, so it is let in. -/
theorem admitsExactly_iff {tokenInuse tokenQuota cost tokenInuse' : ULong} {granted : Prop}
    (hWithin : tokenInuse ≤ tokenQuota) (hGranted : granted ↔ tokenInuse + cost ≤ tokenQuota)
    (hCharged : granted → tokenInuse' = tokenInuse + cost) :
    AdmitsExactly tokenInuse tokenQuota cost granted tokenInuse' ↔ SumFits tokenInuse cost := by
  rw [BitVec.le_def] at hWithin hGranted
  rw [BitVec.toNat_add] at hGranted
  unfold SumFits
  constructor
  · intro h
    by_contra hWraps
    have hLow : granted := hGranted.mpr (by omega)
    have := h.granted_iff.mp hLow
    omega
  · intro hFits
    rw [Nat.mod_eq_of_lt hFits] at hGranted
    refine ⟨hGranted, fun h => ?_⟩
    rw [hCharged h, BitVec.toNat_add, Nat.mod_eq_of_lt hFits]

namespace DispatchBaseNode

/-- `try_alloc_from_desc`, run without interference. -/
def AllocExact (b : DispatchBaseNode) (cost : ULong) : Prop :=
  AdmitsExactly b.tokenInuse b.tokenQuota cost ((b.tryAllocFromDesc cost).2 = .ok)
    (b.tryAllocFromDesc cost).1.tokenInuse

theorem allocExact_iff {b : DispatchBaseNode} (hWithin : b.tokenInuse ≤ b.tokenQuota)
    (cost : ULong) : b.AllocExact cost ↔ SumFits b.tokenInuse cost := by
  unfold AllocExact
  rcases b.tryAllocFromDesc_cases cost with ⟨hFits, heq⟩ | ⟨hNot, heq⟩
  · rw [heq]
    refine admitsExactly_iff hWithin (iff_of_true rfl ?_) fun _ => chargeSection_tokenInuse hFits
    rw [BitVec.add_comm]
    exact hFits
  · rw [heq]
    refine admitsExactly_iff hWithin (iff_of_false (by simp) ?_) fun h => by cases h
    rw [BitVec.add_comm]
    exact hNot

end DispatchBaseNode

namespace DispatchNode

/-- `alloc_resource`: a request that is granted does not join the queue. -/
def AllocExact (n : DispatchNode Id) (h : GrpHeap Id) (rs : ResourceList Id) : Prop :=
  AdmitsExactly n.baseNode.tokenInuse n.baseNode.tokenQuota rs.rs.cost
    ((n.allocResource h rs).1.lheadNodereq = n.lheadNodereq)
    (n.allocResource h rs).1.baseNode.tokenInuse

theorem allocExact_iff {n : DispatchNode Id}
    (hWithin : n.baseNode.tokenInuse ≤ n.baseNode.tokenQuota) (h : GrpHeap Id)
    (rs : ResourceList Id) :
    n.AllocExact h rs ↔ SumFits n.baseNode.tokenInuse rs.rs.cost := by
  unfold AllocExact
  by_cases hFits : n.baseNode.Fits rs.rs.cost
  · rw [allocResource_of_fits hFits]
    refine admitsExactly_iff hWithin (iff_of_true rfl ?_) fun _ =>
      DispatchBaseNode.chargeSection_tokenInuse hFits
    rw [BitVec.add_comm]
    exact hFits
  · -- the queue is one longer
    have hLonger : n.lheadNodereq.pushBack rs ≠ n.lheadNodereq := by
      intro heq
      have hLength := congrArg (fun tokens : NodereqList Id => tokens.tokenList.length) heq
      simp at hLength
    rw [allocResource_of_not_fits hFits]
    refine admitsExactly_iff hWithin (iff_of_false hLonger ?_) fun heq => absurd heq hLonger
    rw [BitVec.add_comm]
    exact hFits

end DispatchNode

namespace AppNode

/-- `dtn_alloc`. -/
def AllocExact (node : AppNode) (cost fenceId : ULong) : Prop :=
  AdmitsExactly node.tokenInuse node.tokenQuota cost ((node.dtnAlloc cost fenceId).2.1 = .ok)
    (node.dtnAlloc cost fenceId).1.tokenInuse

theorem allocExact_iff {node : AppNode} (hWithin : node.tokenInuse ≤ node.tokenQuota)
    (cost fenceId : ULong) :
    node.AllocExact cost fenceId ↔ SumFits node.tokenInuse cost := by
  unfold AllocExact dtnAlloc
  split
  · rename_i hAbove
    exact admitsExactly_iff hWithin (iff_of_false (by simp) (BitVec.not_le.mpr hAbove))
      fun h => by cases h
  · rename_i hNot
    exact admitsExactly_iff hWithin (iff_of_true rfl (BitVec.not_lt.mp hNot)) fun _ => rfl

end AppNode

/-- **Admission** is exact on either side, whatever the cost, exactly where the
sum is one word. -/
theorem admission_exact_iff {n : DispatchNode Id} {node : AppNode}
    (hApp : n.baseNode.tokenInuse ≤ n.baseNode.tokenQuota)
    (hDispatcher : node.tokenInuse ≤ node.tokenQuota) :
    (∀ cost, n.baseNode.AllocExact cost ↔ SumFits n.baseNode.tokenInuse cost) ∧
    (∀ h rs, n.AllocExact h rs ↔ SumFits n.baseNode.tokenInuse rs.rs.cost) ∧
    ∀ cost fenceId, node.AllocExact cost fenceId ↔ SumFits node.tokenInuse cost :=
  ⟨fun cost => DispatchBaseNode.allocExact_iff hApp cost,
    fun h rs => DispatchNode.allocExact_iff hApp h rs,
    fun cost fenceId => AppNode.allocExact_iff hDispatcher cost fenceId⟩

section LargestCost

/-- Five of ten tokens are in use. -/
def fiveInUse : DispatchNode ℕ := ⟨{ DispatchBaseNode.init with tokenInuse := 5 }, .init, 0⟩

def fiveGiven : AppNode := { AppNode.init 0 10 0 with tokenQuota := 10, tokenInuse := 5 }

/-- A request of five tokens more is the last one that is granted. -/
theorem admission_exact_five : fiveInUse.baseNode.AllocExact 5 ∧ fiveGiven.AllocExact 5 0 := by
  have hApp : fiveInUse.baseNode.tokenInuse ≤ fiveInUse.baseNode.tokenQuota := by decide
  have hDispatcher : fiveGiven.tokenInuse ≤ fiveGiven.tokenQuota := by decide
  obtain ⟨hBase, -, hNode⟩ := admission_exact_iff hApp hDispatcher
  exact ⟨(hBase 5).mpr (by unfold SumFits; decide), (hNode 5 0).mpr (by unfold SumFits; decide)⟩

/-- The sum of five and `-1`, the largest cost there is, is four. -/
theorem wrapped_sum_is_admitted :
    ¬ ∀ (b : DispatchBaseNode) (node : AppNode) (cost fenceId : ULong),
      b.tokenInuse ≤ b.tokenQuota → node.tokenInuse ≤ node.tokenQuota →
      b.AllocExact cost ∧ node.AllocExact cost fenceId := by
  intro hAlways
  obtain ⟨hBase, -⟩ := hAlways fiveInUse.baseNode fiveGiven (-1) 0 (by decide) (by decide)
  have hLarge := hBase.granted_iff.mp (by decide)
  revert hLarge
  decide

end LargestCost

end DatastorQos
