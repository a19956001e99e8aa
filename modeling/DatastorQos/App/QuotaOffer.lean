import DatastorQos.Lib.Runs
import DatastorQos.App.BaseNode

/-!
# datastor_qos — the quota an app believes in

A base node is driven by quota messages, allocations, frees and resets. The
question is whether `tokenQuota` stays within what the node was ever offered:
the starting `MIN_RS_NUM` and the quotas of the messages received so far.

Lowering a quota is gradual: one step takes `respondStep` off, in
`unsigned long`, and clamps the result from below at the target. Below
`respondStep` the subtraction wraps and the clamp keeps the wrapped value, so
the step *raises* the quota to almost `2 ^ 64`.

* `raisedByOffer_iff` — one step raises the quota without an offer exactly when
  it steps down from a quota below `respondStep`;
* `believesOnlyOffers_iff` — over whole runs from `dispatch_base_node_init`,
  the node never believes in more than it was offered iff no step of the run
  steps down from a quota below `respondStep`;
* `lowering_quota_raises_it` — three calls after which the node believes in
  `2 ^ 64 - 2` tokens, having been offered at most 10.
-/

namespace DatastorQos

open Runs

/-- The calls that change a base node. -/
inductive BaseOp where
  | message (quota : ULong) (version : Int)
  | alloc (cost : ULong)
  | free (cost : ULong)
  | reset
  deriving DecidableEq, Repr

namespace DispatchBaseNode

def apply (b : DispatchBaseNode) : BaseOp → DispatchBaseNode
  | .message quota version => (b.checkUpdateTotalVersion quota version).1
  | .alloc cost => (b.tryAllocFromDesc cost).1
  | .free cost => b.freeToDesc cost
  | .reset => b.reset

end DispatchBaseNode

/-- A base node from `dispatch_base_node_init`, under any calls. -/
def baseNodeSystem : System DispatchBaseNode BaseOp where
  init b := b = DispatchBaseNode.init
  step b op b' := b' = b.apply op

abbrev BaseTransition := Transition DispatchBaseNode BaseOp

/-- The maximum of `MIN_RS_NUM` and all quotas carried by the messages of `tr`. -/
def offeredMax (tr : List BaseTransition) : ULong :=
  tr.foldl (fun m x => match x.act with
    | .message quota _ => ULong.cmax m quota
    | _ => m) MIN_RS_NUM

/-- The counters of `b` are within what the transitions before it offered. -/
structure WithinOffer (tr : List BaseTransition) (b : DispatchBaseNode) : Prop where
  new_le   : b.tokenQuotaNew ≤ b.tokenQuota
  quota_le : b.tokenQuota ≤ offeredMax tr

/-- The quota rises only in a reset or in a newer message offering more. -/
def RaisedByOffer (x : BaseTransition) : Prop :=
  x.pre.tokenQuota < x.post.tokenQuota →
    x.act = .reset ∨
    ∃ quota version, x.act = .message quota version ∧
      x.pre.version < version ∧ x.pre.tokenQuota < quota

/-- Every state along the run is within the offers made before it, and every
rise of the quota is the effect of an offer. -/
def BelievesOnlyOffers (tr : List BaseTransition) : Prop :=
  (∀ tr' b, tr' <+: tr → Run baseNodeSystem DispatchBaseNode.init tr' b → WithinOffer tr' b) ∧
  ∀ x ∈ tr, RaisedByOffer x

/-- The call does not step the quota down from below `respondStep`. -/
def StepsDownInRange (b : DispatchBaseNode) : BaseOp → Prop
  | .message quota version =>
      b.version < version → quota < b.tokenQuota → b.respondStep ≤ b.tokenQuota
  | .alloc cost =>
      b.Fits cost → b.tokenQuotaNew < b.tokenQuota → b.respondStep ≤ b.tokenQuota
  | .free _ => True
  | .reset => True

instance (b : DispatchBaseNode) (op : BaseOp) : Decidable (StepsDownInRange b op) := by
  cases op <;> unfold StepsDownInRange <;> infer_instance

-- ---------------------------------------------------------------------------
-- One step down
-- ---------------------------------------------------------------------------

/-- Below the step the subtraction wraps past the quota it started from. -/
theorem lt_stepDown {quota target step : ULong} (hr : ¬ step ≤ quota) :
    quota < ULong.cmax target (quota - step) := by
  have hWrap : quota < quota - step := by bv_omega
  have := ULong.right_le_cmax target (quota - step)
  bv_omega

/-- **One step**: the quota rises without an offer exactly when the call steps
down out of range. -/
theorem raisedByOffer_iff (b : DispatchBaseNode) (op : BaseOp) :
    RaisedByOffer ⟨b, op, b.apply op⟩ ↔ StepsDownInRange b op := by
  cases op with
  | message quota version =>
    simp only [RaisedByOffer, StepsDownInRange, DispatchBaseNode.apply]
    rcases b.checkUpdateTotalVersion_cases quota version with
      ⟨hv, h⟩ | ⟨hv, h⟩ | ⟨hv, hq, h⟩ | ⟨hv, hq, h⟩ | ⟨hv, hq, h⟩
    · -- older: nothing changes
      rw [h]
      exact ⟨fun _ hv' => by omega, fun _ hlt => absurd hlt (BitVec.lt_irrefl _)⟩
    · rw [h]
      exact ⟨fun _ hv' => by omega, fun _ hlt => absurd hlt (BitVec.lt_irrefl _)⟩
    · -- a larger offer
      rw [h]
      exact ⟨fun _ _ hlt => by bv_omega, fun _ _ => Or.inr ⟨quota, version, rfl, hv, hq⟩⟩
    · -- a smaller offer: the step down
      rw [h]
      constructor
      · intro hRaise _ _
        by_contra hr
        rcases hRaise (lt_stepDown hr) with hreset | ⟨quota', version', hact, -, hlt⟩
        · cases hreset
        · cases hact
          bv_omega
      · intro hRange hlt
        have := stepDown_le hq (hRange hv hq)
        simp only at hlt
        bv_omega
    · rw [h]
      exact ⟨fun _ _ hlt => by bv_omega, fun _ hlt => absurd hlt (BitVec.lt_irrefl _)⟩
  | alloc cost =>
    simp only [RaisedByOffer, StepsDownInRange, DispatchBaseNode.apply]
    rcases b.tryAllocFromDesc_cases cost with ⟨hfit, h⟩ | ⟨hfit, h⟩
    · rw [h]
      have hQuota : (b.chargeSection cost).tokenQuota =
          if b.tokenQuotaNew < b.tokenQuota then
            ULong.cmax b.tokenQuotaNew (b.tokenQuota - b.respondStep)
          else b.tokenQuota := by
        unfold DispatchBaseNode.Fits at hfit
        simp [DispatchBaseNode.chargeSection, hfit]
      simp only [hQuota]
      constructor
      · intro hRaise _ hnew
        by_contra hr
        rw [if_pos hnew] at hRaise
        rcases hRaise (lt_stepDown hr) with hreset | ⟨_, _, hact, -⟩
        · cases hreset
        · cases hact
      · intro hRange hlt
        by_cases hnew : b.tokenQuotaNew < b.tokenQuota
        · rw [if_pos hnew] at hlt
          have := stepDown_le hnew (hRange hfit hnew)
          bv_omega
        · rw [if_neg hnew] at hlt
          exact absurd hlt (BitVec.lt_irrefl _)
    · rw [h]
      exact ⟨fun _ hfit' => absurd hfit' hfit, fun _ hlt => absurd hlt (BitVec.lt_irrefl _)⟩
  | free cost =>
    simp only [RaisedByOffer, StepsDownInRange, DispatchBaseNode.apply, iff_true]
    exact fun hlt => absurd hlt (BitVec.lt_irrefl _)
  | reset => simp [RaisedByOffer, StepsDownInRange]

-- ---------------------------------------------------------------------------
-- Whole runs
-- ---------------------------------------------------------------------------

theorem offeredMax_snoc (tr : List BaseTransition) (x : BaseTransition) :
    offeredMax (tr ++ [x]) = match x.act with
      | .message quota _ => ULong.cmax (offeredMax tr) quota
      | _ => offeredMax tr := by
  simp [offeredMax, List.foldl_append]

theorem offeredMax_le_snoc (tr : List BaseTransition) (x : BaseTransition) :
    offeredMax tr ≤ offeredMax (tr ++ [x]) := by
  rw [offeredMax_snoc]
  cases x.act with
  | message quota version => exact ULong.left_le_cmax _ _
  | alloc | free | reset => exact BitVec.le_refl _

theorem min_le_offeredMax (tr : List BaseTransition) : MIN_RS_NUM ≤ offeredMax tr := by
  induction tr using List.reverseRecOn with
  | nil => exact BitVec.le_refl _
  | append_singleton tr x ih => exact BitVec.le_trans ih (offeredMax_le_snoc tr x)

/-- Every call keeps the target below the quota, also where the step down wraps:
it is clamped at the target. -/
theorem DispatchBaseNode.apply_new_le {b : DispatchBaseNode} (h : b.tokenQuotaNew ≤ b.tokenQuota)
    (op : BaseOp) : (b.apply op).tokenQuotaNew ≤ (b.apply op).tokenQuota := by
  cases op with
  | message quota version =>
    simp only [apply]
    rcases b.checkUpdateTotalVersion_cases quota version with
      ⟨-, e⟩ | ⟨-, e⟩ | ⟨-, -, e⟩ | ⟨-, -, e⟩ | ⟨-, -, e⟩ <;> rw [e]
    · exact h
    · exact h
    · exact BitVec.le_refl _
    · exact ULong.left_le_cmax _ _
    · exact h
  | alloc cost =>
    simp only [apply]
    rcases b.tryAllocFromDesc_cases cost with ⟨-, e⟩ | ⟨-, e⟩ <;> rw [e]
    · rw [chargeSection_tokenQuotaNew]
      unfold chargeSection
      split_ifs with hfit hlt
      · exact ULong.left_le_cmax _ _
      · exact h
      · exact h
    · exact h
  | free cost => exact h
  | reset => exact BitVec.le_refl _

/-- A charge that steps down in range does not raise the quota. -/
theorem charge_quota_le {b : DispatchBaseNode} {cost : ULong}
    (hRange : StepsDownInRange b (.alloc cost)) :
    (b.chargeSection cost).tokenQuota ≤ b.tokenQuota := by
  unfold DispatchBaseNode.chargeSection
  split_ifs with hfit hlt
  · exact stepDown_le hlt (hRange hfit hlt)
  · exact BitVec.le_refl _
  · exact BitVec.le_refl _

/-- **Step lemma**: a call that steps down in range keeps the node within its
offers. -/
theorem WithinOffer.apply {tr : List BaseTransition} {b : DispatchBaseNode} {op : BaseOp}
    (h : WithinOffer tr b) (hRange : StepsDownInRange b op) :
    WithinOffer (tr ++ [⟨b, op, b.apply op⟩]) (b.apply op) := by
  have hMono := BitVec.le_trans h.quota_le (offeredMax_le_snoc tr ⟨b, op, b.apply op⟩)
  refine ⟨DispatchBaseNode.apply_new_le h.new_le op, ?_⟩
  cases op with
  | message quota version =>
    have hOffer : quota ≤ offeredMax (tr ++ [⟨b, .message quota version,
        b.apply (.message quota version)⟩]) := by
      rw [offeredMax_snoc]
      exact ULong.right_le_cmax _ _
    simp only [DispatchBaseNode.apply] at hMono hOffer ⊢
    rcases b.checkUpdateTotalVersion_cases quota version with
      ⟨-, e⟩ | ⟨-, e⟩ | ⟨-, -, e⟩ | ⟨hv, hq, e⟩ | ⟨-, -, e⟩
    · rw [e] at hMono ⊢
      exact hMono
    · rw [e] at hMono ⊢
      exact hMono
    · rw [e] at hOffer ⊢
      exact hOffer
    · rw [e] at hMono ⊢
      exact BitVec.le_trans (stepDown_le hq (hRange hv hq)) hMono
    · rw [e] at hMono ⊢
      exact hMono
  | alloc cost =>
    simp only [DispatchBaseNode.apply] at hMono ⊢
    rcases b.tryAllocFromDesc_cases cost with ⟨-, e⟩ | ⟨-, e⟩
    · rw [e] at hMono ⊢
      exact BitVec.le_trans (charge_quota_le hRange) hMono
    · rw [e] at hMono ⊢
      exact hMono
  | free cost => exact hMono
  | reset => exact min_le_offeredMax _

/-- **Run lemma**: a run that only steps down in range ends within its offers. -/
theorem withinOffer_of_run {tr : List BaseTransition} {b : DispatchBaseNode}
    (h : Run baseNodeSystem DispatchBaseNode.init tr b)
    (hRange : ∀ x ∈ tr, StepsDownInRange x.pre x.act) : WithinOffer tr b := by
  induction h with
  | nil => exact ⟨BitVec.le_refl _, BitVec.le_refl _⟩
  | snoc hrun hst ih =>
    have hLast := hRange _ (List.mem_append_right _ (List.mem_singleton_self _))
    have hPre := ih fun x hx => hRange x (List.mem_append_left _ hx)
    rw [show _ = _ from hst]
    exact hPre.apply hLast

/-- **The app never believes in more than it was offered**, in exactly the runs
in which no call steps the quota down from below `respondStep`. -/
theorem believesOnlyOffers_iff {tr : List BaseTransition} {b : DispatchBaseNode}
    (h : Run baseNodeSystem DispatchBaseNode.init tr b) :
    BelievesOnlyOffers tr ↔ ∀ x ∈ tr, StepsDownInRange x.pre x.act := by
  have hStep : ∀ x ∈ tr, RaisedByOffer x ↔ StepsDownInRange x.pre x.act := by
    rintro ⟨b, op, b'⟩ hx
    obtain rfl : b' = b.apply op := h.step_of_mem _ hx
    exact raisedByOffer_iff b op
  constructor
  · rintro ⟨-, hRaised⟩ x hx
    exact (hStep x hx).mp (hRaised x hx)
  · intro hRange
    refine ⟨fun tr' b' hpre hrun => ?_, fun x hx => (hStep x hx).mpr (hRange x hx)⟩
    exact withinOffer_of_run hrun fun x hx => hRange x (hpre.subset hx)

/-- `MIN_RS_NUM` lowered to 8 and then towards 2: the second step, taken by an
allocation at quota 3, is out of range. -/
def loweringRun : List BaseOp := [.message 8 1, .message 2 2, .alloc 0]

theorem run_lowering :
    ∃ tr b, Run baseNodeSystem DispatchBaseNode.init tr b ∧
      tr.map Transition.act = loweringRun ∧ b.tokenQuota.toNat = 2 ^ 64 - 2 ∧
      ∃ x ∈ tr, ¬ StepsDownInRange x.pre x.act := by
  refine ⟨_, _, ((Run.nil.snoc (a := .message 8 1) rfl).snoc (a := .message 2 2) rfl).snoc
    (a := .alloc 0) rfl, rfl, by decide, _, List.mem_append_right _ (List.mem_singleton_self _), ?_⟩
  decide

/-- After that run, whose last call is an allocation of nothing, the node believes
in `2 ^ 64 - 2` tokens, having been offered at most 10. -/
theorem lowering_quota_raises_it :
    ¬ ∀ tr b, Run baseNodeSystem DispatchBaseNode.init tr b → BelievesOnlyOffers tr := by
  intro h
  obtain ⟨tr, b, hrun, -, -, ⟨b', op, b''⟩, hx, hOut⟩ := run_lowering
  obtain rfl : b'' = b'.apply op := hrun.step_of_mem _ hx
  exact hOut ((raisedByOffer_iff b' op).mp ((h tr b hrun).2 _ hx))

/-- On the first two calls of that run every step is in range, and the node
stays within its offers. -/
theorem believesOnlyOffers_two_messages :
    ∃ tr b, Run baseNodeSystem DispatchBaseNode.init tr b ∧
      tr.map Transition.act = [.message 8 1, .message 2 2] ∧ BelievesOnlyOffers tr := by
  have hrun := (Run.nil (S := baseNodeSystem) (s := DispatchBaseNode.init)).snoc
    (a := .message 8 1) rfl |>.snoc (a := .message 2 2) rfl
  refine ⟨_, _, hrun, rfl, (believesOnlyOffers_iff hrun).mpr ?_⟩
  decide

end DatastorQos
