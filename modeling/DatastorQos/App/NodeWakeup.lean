import DatastorQos.Lib.Runs
import DatastorQos.App.Node

/-!
# datastor_qos — no lost wakeup, one call after another

A request that waits should wait for tokens that are not there: the front of a
non-empty queue does not fit (`DispatchNode.Awake`). The pump establishes this
whenever it runs. It does not run when

* a reset raises the quota back to `MIN_RS_NUM`;
* a step down starts below `respond_step` and the subtraction wraps, which
  raises the quota;
* an allocation passes the check only because `cost + token_inuse` wraps, which
  lowers `token_inuse`.

* `front_blocked_of_pumped` — in every run that avoids these three, on a queue
  that is not empty, the front is blocked in every state;
* `reset_leaves_front_waiting` — after a reset the front can be left waiting
  for tokens that are free.
-/

namespace DatastorQos

open Runs

variable {Id : Type}

/-- No request waits for tokens that are free. -/
def DispatchNode.Awake (n : DispatchNode Id) : Prop := FrontBlocked n.baseNode n.lheadNodereq

/-- A call on the node. The groups may have changed since the last one, so each
call brings the memory it finds. -/
inductive NodeCall (Id : Type) where
  | allocResource (h : GrpHeap Id) (rs : ResourceList Id)
  | freeResource (h : GrpHeap Id) (rip : TokenReq Id)
  | resourceChanged (h : GrpHeap Id) (dta : Dispatch2App)
  | reset
  | popAll (h : GrpHeap Id)

def NodeCall.apply (n : DispatchNode Id) : NodeCall Id → DispatchNode Id
  | .allocResource h rs => (n.allocResource h rs).1
  | .freeResource h rip => (n.freeResource h rip []).1
  | .resourceChanged h dta => (n.resourceChanged h dta []).1
  | .reset => n.reset
  | .popAll h => (n.popAll h []).1

/-- Only got requests are freed. -/
def NodeCall.Legal : NodeCall Id → Prop
  | .freeResource _ rip => rip.stat = .got
  | _ => True

def nodeSystem : System (DispatchNode Id) (NodeCall Id) where
  init n := ∃ version, n = .init version
  step n call n' := call.Legal ∧ n' = call.apply n

theorem NodeCall.step (n : DispatchNode Id) (call : NodeCall Id) (h : call.Legal) :
    nodeSystem.step n call (call.apply n) := ⟨h, rfl⟩

/-- The call does not make room behind the pump's back. -/
def Pumped (n : DispatchNode Id) : NodeCall Id → Prop
  | .allocResource _ rs =>
    n.lheadNodereq.tokenList ≠ [] → n.baseNode.Fits rs.rs.cost →
      n.baseNode.tokenInuse.toNat + rs.rs.cost.toNat < 2 ^ 64 ∧
      (n.baseNode.tokenQuotaNew < n.baseNode.tokenQuota →
        n.baseNode.respondStep ≤ n.baseNode.tokenQuota)
  | .resourceChanged _ dta =>
    n.lheadNodereq.tokenList ≠ [] → n.baseNode.version < dta.version →
      dta.tokenQuota < n.baseNode.tokenQuota → n.baseNode.respondStep ≤ n.baseNode.tokenQuota
  | .reset =>
    ∀ rs ∈ n.lheadNodereq.front,
      n.baseNode.tokenInuse.toNat + rs.rs.cost.toNat > MIN_RS_NUM.toNat
  | .freeResource _ _ | .popAll _ => True

-- ---------------------------------------------------------------------------
-- One call
-- ---------------------------------------------------------------------------

theorem DispatchNode.Awake.allocResource {n : DispatchNode Id} {h : GrpHeap Id}
    {rs : ResourceList Id} (hBlocked : n.Awake)
    (hPumped : Pumped n (.allocResource h rs)) :
    (n.allocResource h rs).1.Awake := by
  by_cases hFits : n.baseNode.Fits rs.rs.cost
  · rw [DispatchNode.allocResource_of_fits hFits]
    by_cases hEmpty : n.lheadNodereq.tokenList = []
    · exact frontBlocked_of_empty hEmpty
    obtain ⟨hNoWrap, hStep⟩ := hPumped hEmpty hFits
    refine hBlocked.mono rfl ?_ ?_
    · simp only [DispatchBaseNode.chargeSection_tokenInuse hFits]
      bv_omega
    · -- the shrink performed inside the allocation
      unfold DispatchBaseNode.Fits at hFits
      simp only [DispatchBaseNode.chargeSection, if_pos hFits]
      split
      · rename_i hNew
        exact BitVec.le_def.mp (stepDown_le hNew (hStep hNew))
      · exact Nat.le_refl _
  · rw [DispatchNode.allocResource_of_not_fits hFits]
    intro rs' hrs'
    simp only [NodereqList.pushBack_front] at hrs'
    cases hFront : n.lheadNodereq.front with
    | some front =>
      -- the newcomer waits behind the old front
      rw [hFront] at hrs'
      obtain rfl : front = rs' := by simpa using hrs'
      exact hBlocked _ hFront
    | none =>
      rw [hFront] at hrs'
      obtain rfl : rs = rs' := by simpa using hrs'
      unfold DispatchBaseNode.Fits at hFits
      show n.baseNode.tokenInuse.toNat + rs.rs.cost.toNat > n.baseNode.tokenQuota.toNat
      bv_omega

theorem DispatchNode.Awake.resourceChanged {n : DispatchNode Id} {h : GrpHeap Id} {dta : Dispatch2App}
    (hBlocked : n.Awake) (hPumped : Pumped n (.resourceChanged h dta)) :
    (n.resourceChanged h dta []).1.Awake := by
  unfold DispatchNode.resourceChanged
  rcases n.baseNode.checkUpdateTotalVersion_cases dta.tokenQuota dta.version with
    ⟨-, heq⟩ | ⟨-, heq⟩ | ⟨-, -, heq⟩ | ⟨hVer, hDown, heq⟩ | ⟨-, -, heq⟩ <;> rw [heq]
  · exact hBlocked
  · exact hBlocked
  · exact DispatchNode.resourceIncreased_frontBlocked _ _ _
  · by_cases hEmpty : n.lheadNodereq.tokenList = []
    · exact frontBlocked_of_empty hEmpty
    · refine hBlocked.mono rfl (Nat.le_refl _) ?_
      exact BitVec.le_def.mp (stepDown_le hDown (hPumped hEmpty hVer hDown))
  · exact hBlocked.mono rfl (Nat.le_refl _) (Nat.le_refl _)

theorem DispatchNode.Awake.freeResource {n : DispatchNode Id} (hBlocked : n.Awake)
    (h : GrpHeap Id) (rip : TokenReq Id) : (n.freeResource h rip []).1.Awake := by
  unfold DispatchNode.freeResource
  split
  · exact DispatchNode.resourceIncreased_frontBlocked _ _ _
  · exact hBlocked

/-- **Step lemma**: every call that makes no room behind the pump's back keeps
the front blocked. -/
theorem DispatchNode.Awake.apply {n : DispatchNode Id} {call : NodeCall Id} (hBlocked : n.Awake)
    (hPumped : Pumped n call) : (call.apply n).Awake := by
  cases call with
  | allocResource h rs => exact hBlocked.allocResource hPumped
  | freeResource h rip => exact hBlocked.freeResource h rip
  | resourceChanged h dta => exact hBlocked.resourceChanged hPumped
  | reset => exact hPumped
  | popAll h => exact frontBlocked_of_empty (n.popAll_tokenList h [])

-- ---------------------------------------------------------------------------
-- Whole runs
-- ---------------------------------------------------------------------------

/-- **No lost wakeup**, in every state of every run whose calls make no room
behind the pump's back. -/
theorem front_blocked_of_pumped {n₀ n : DispatchNode Id}
    {tr : List (Transition (DispatchNode Id) (NodeCall Id))}
    (hinit : nodeSystem.init n₀) (hrun : Run nodeSystem n₀ tr n)
    (hPumped : ∀ x ∈ tr, Pumped x.pre x.act) : n.Awake := by
  obtain ⟨version, rfl⟩ := hinit
  have hRestrict := run_restrict.mpr ⟨hrun, hPumped⟩
  refine hRestrict.invariant (I := DispatchNode.Awake) ?_ (frontBlocked_of_empty rfl)
  rintro n call _ hBlocked ⟨hPumped, -, rfl⟩
  exact hBlocked.apply hPumped

/-- One group, whose only request asks for 6 tokens of node 0. -/
def heapOfOne : GrpHeap Nat := [(TokenReqgrp.tokenReqgrpInit 0 (.init 1) [⟨0, 6⟩] 0).1]

def needSix : ResourceList Nat := ⟨⟨0, 0⟩, ⟨0, 6⟩⟩

/-- A message lowers the quota to 5, a request for 6 has to wait, a reset raises
the quota to 10. -/
theorem run_reset_unpumped :
    ∃ tr n, Run (@nodeSystem Nat) (.init 0) tr n ∧
      n.lheadNodereq.front = some needSix ∧
      n.baseNode.tokenInuse = 0 ∧ n.baseNode.tokenQuota = 10 := by
  have hrun := (Run.nil (S := nodeSystem) (s := DispatchNode.init 0)).snoc
    (NodeCall.step _ (.resourceChanged heapOfOne ⟨5, 1⟩) trivial)
    |>.snoc (NodeCall.step _ (.allocResource heapOfOne needSix) trivial)
    |>.snoc (NodeCall.step _ .reset trivial)
  exact ⟨_, _, hrun, by decide, by decide, by decide⟩

/-- The request of 6 is left waiting, with 10 tokens free. -/
theorem reset_leaves_front_waiting :
    ¬ ∀ n : DispatchNode Nat, Reachable nodeSystem n → n.Awake := by
  intro h
  obtain ⟨tr, n, hrun, hFront, hInuse, hQuota⟩ := run_reset_unpumped
  have := h n ⟨_, tr, ⟨0, rfl⟩, hrun⟩ needSix hFront
  rw [hInuse, hQuota] at this
  revert this
  decide

/-- The same run without the reset: the front waits for tokens that are not
there. -/
theorem front_blocked_before_reset :
    ∃ tr n, Run (@nodeSystem Nat) (.init 0) tr n ∧
      n.lheadNodereq.front = some needSix ∧ n.Awake := by
  have hrun := (Run.nil (S := nodeSystem) (s := DispatchNode.init 0)).snoc
    (NodeCall.step _ (.resourceChanged heapOfOne ⟨5, 1⟩) trivial)
    |>.snoc (NodeCall.step _ (.allocResource heapOfOne needSix) trivial)
  refine ⟨_, _, hrun, by decide, front_blocked_of_pumped ⟨0, rfl⟩ hrun ?_⟩
  simp only [List.nil_append, List.cons_append, List.forall_mem_cons]
  refine ⟨?_, ?_, by simp⟩
  · intro hNe
    exact absurd rfl hNe
  · intro hNe
    exact absurd rfl hNe

end DatastorQos
