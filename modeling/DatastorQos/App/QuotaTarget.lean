import DatastorQos.App.QuotaOffer

/-!
# datastor_qos — the newest announced quota is the target

A message newer than what the node has should set the target, `tokenQuotaNew`,
and the allocations that follow should only step `tokenQuota` down to it.

* `newest_quota_is_target_iff` — that is so exactly if the message does not
  announce the very quota the node is at while a lower one is pending, and no
  allocation steps down from a quota below `respondStep`;
* `equal_quota_leaves_target` — a message that announces the quota the node is
  at leaves the old target in place: `check_update_total_version` sets
  `token_quota_new` only in its two other branches.
-/

namespace DatastorQos

open Runs

/-- The call neither brings a message nor resets the node. -/
def BaseOp.Quiet : BaseOp → Prop
  | .alloc _ | .free _ => True
  | .message _ _ | .reset => False

/-- The call moves the quota towards `quota`, not past it. -/
def StepsTowards (quota : ULong) (x : BaseTransition) : Prop :=
  quota ≤ x.post.tokenQuota ∧ x.post.tokenQuota ≤ x.pre.tokenQuota

/-- After a message the node has its version and aims at its quota, and so it
stays in the calls `tr` that follow. -/
structure AimsAt (b : DispatchBaseNode) (quota : ULong) (version : Int)
    (tr : List BaseTransition) : Prop where
  version_eq : b.version = version
  target     : b.tokenQuotaNew = quota
  later      : ∀ x ∈ tr, StepsTowards quota x

variable {b b' : DispatchBaseNode} {quota : ULong} {version : Int} {tr : List BaseTransition}

/-- What a newer message leaves behind. -/
theorem message_newer (b : DispatchBaseNode) (quota : ULong) (hVersion : b.version < version) :
    (b.apply (.message quota version)).version = version ∧
      ((b.apply (.message quota version)).tokenQuotaNew = quota ↔
        (quota = b.tokenQuota → b.tokenQuotaNew = b.tokenQuota)) ∧
      ((b.apply (.message quota version)).tokenQuotaNew = quota →
        quota ≤ (b.apply (.message quota version)).tokenQuota) := by
  simp only [DispatchBaseNode.apply]
  rcases b.checkUpdateTotalVersion_cases quota version with
    ⟨hv, h⟩ | ⟨hv, h⟩ | ⟨-, hq, h⟩ | ⟨-, hq, h⟩ | ⟨-, hq, h⟩
  · omega
  · omega
  · rw [h]
    refine ⟨rfl, ⟨fun _ heq => ?_, fun _ => rfl⟩, fun _ => BitVec.le_refl _⟩
    bv_omega
  · rw [h]
    refine ⟨rfl, ⟨fun _ heq => ?_, fun _ => rfl⟩, fun _ => ULong.left_le_cmax _ _⟩
    bv_omega
  · -- the quota the node is at: the target stays what it was
    rw [h]
    subst hq
    exact ⟨rfl, ⟨fun hNew _ => hNew, fun hNew => hNew rfl⟩, fun _ => BitVec.le_refl _⟩

/-- One call between two messages. -/
theorem stepsTowards_iff {op : BaseOp} (hQuiet : op.Quiet) (hTarget : b.tokenQuotaNew = quota)
    (hQuota : quota ≤ b.tokenQuota) :
    (b.apply op).tokenQuotaNew = quota ∧
      (StepsTowards quota ⟨b, op, b.apply op⟩ ↔ StepsDownInRange b op) := by
  have hRaised := raisedByOffer_iff b op
  have hNotRaised : (b.apply op).tokenQuota ≤ b.tokenQuota ↔ RaisedByOffer ⟨b, op, b.apply op⟩ := by
    constructor
    · intro hLe hLt
      exact absurd hLt (BitVec.not_lt.mpr hLe)
    · intro h
      by_contra hNot
      rcases h (BitVec.not_le.mp hNot) with rfl | ⟨q, v, rfl, -⟩
      · exact hQuiet
      · exact hQuiet
  have hAbove : (b.apply op).tokenQuotaNew = quota ∧ quota ≤ (b.apply op).tokenQuota := by
    cases op with
    | message | reset => exact hQuiet.elim
    | free cost => exact ⟨hTarget, hQuota⟩
    | alloc cost =>
      simp only [DispatchBaseNode.apply]
      rcases b.tryAllocFromDesc_cases cost with ⟨hFits, h⟩ | ⟨-, h⟩
      · rw [h]
        refine ⟨(b.chargeSection_tokenQuotaNew cost).trans hTarget, ?_⟩
        unfold DispatchBaseNode.Fits at hFits
        simp only [DispatchBaseNode.chargeSection, if_pos hFits, hTarget]
        split
        · exact ULong.left_le_cmax _ _
        · exact hQuota
      · rw [h]
        exact ⟨hTarget, hQuota⟩
  refine ⟨hAbove.1, ?_⟩
  rw [← hRaised, ← hNotRaised]
  exact and_iff_right hAbove.2

/-- The calls between two messages, from a node that aims at `quota`. -/
theorem all_stepsTowards_iff (hRun : Run baseNodeSystem b tr b') (hQuiet : ∀ x ∈ tr, x.act.Quiet)
    (hTarget : b.tokenQuotaNew = quota) (hQuota : quota ≤ b.tokenQuota) :
    (∀ x ∈ tr, StepsTowards quota x) ↔ ∀ x ∈ tr, StepsDownInRange x.pre x.act := by
  have hQuietRun : Run (baseNodeSystem.restrict fun _ op => op.Quiet) b tr b' :=
    run_restrict.mpr ⟨hRun, hQuiet⟩
  refine (hQuietRun.forall_iff (I := fun t => t.tokenQuotaNew = quota ∧ quota ≤ t.tokenQuota) ?_
    ⟨hTarget, hQuota⟩).1
  rintro t op _ ⟨hTarget, hQuota⟩ ⟨hQuietOp, rfl⟩
  obtain ⟨hNew, hIff⟩ := stepsTowards_iff hQuietOp hTarget hQuota
  exact ⟨hIff, fun hTowards => ⟨hNew, hTowards.1⟩⟩

/-- **The newest announced quota is the target**, and stays it. -/
theorem newest_quota_is_target_iff (hVersion : b.version < version)
    (hRun : Run baseNodeSystem (b.apply (.message quota version)) tr b')
    (hQuiet : ∀ x ∈ tr, x.act.Quiet) :
    AimsAt (b.apply (.message quota version)) quota version tr ↔
      (quota = b.tokenQuota → b.tokenQuotaNew = b.tokenQuota) ∧
      ∀ x ∈ tr, StepsDownInRange x.pre x.act := by
  obtain ⟨hNewVersion, hTarget, hQuota⟩ := message_newer b quota hVersion
  constructor
  · intro h
    refine ⟨hTarget.mp h.target, ?_⟩
    exact (all_stepsTowards_iff hRun hQuiet h.target (hQuota h.target)).mp h.later
  · rintro ⟨hEqual, hRange⟩
    have hNew := hTarget.mpr hEqual
    exact ⟨hNewVersion, hNew, (all_stepsTowards_iff hRun hQuiet hNew (hQuota hNew)).mpr hRange⟩

section Lowering

/-- A node that was offered 2 tokens, and has stepped from 10 to 5. -/
def atFive : DispatchBaseNode := DispatchBaseNode.init.apply (.message 2 1)

theorem atFive_reachable : Reachable baseNodeSystem atFive :=
  (Reachable.init rfl).step (a := .message 2 1) rfl

/-- Offered 4 tokens next, it aims at 4, and an allocation does not change that. -/
theorem newest_quota_is_target_four : ∃ tr,
    Run baseNodeSystem (atFive.apply (.message 4 2)) tr
      ((atFive.apply (.message 4 2)).apply (.alloc 1)) ∧
    AimsAt (atFive.apply (.message 4 2)) 4 2 tr := by
  have hRun : Run baseNodeSystem (atFive.apply (.message 4 2))
      [⟨atFive.apply (.message 4 2), .alloc 1, (atFive.apply (.message 4 2)).apply (.alloc 1)⟩]
      ((atFive.apply (.message 4 2)).apply (.alloc 1)) := Run.single rfl
  refine ⟨_, hRun, (newest_quota_is_target_iff (by decide) hRun ?_).mpr ⟨by decide, by decide⟩⟩
  simp [BaseOp.Quiet]

/-- Offered 5 tokens next, it still aims at 2. -/
theorem equal_quota_leaves_target :
    ¬ ∀ (b b' : DispatchBaseNode) (quota : ULong) (version : Int) (tr : List BaseTransition),
      Reachable baseNodeSystem b → b.version < version →
      Run baseNodeSystem (b.apply (.message quota version)) tr b' →
      (∀ x ∈ tr, x.act.Quiet) → AimsAt (b.apply (.message quota version)) quota version tr := by
  intro hAlways
  have hAims := hAlways atFive _ 5 2 [] atFive_reachable (by decide) .nil (by simp)
  have hTarget := hAims.target
  revert hTarget
  decide

end Lowering

end DatastorQos
