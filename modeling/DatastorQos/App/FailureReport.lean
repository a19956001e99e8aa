import DatastorQos.App.Reqgrp

/-!
# token_reqgrp — reports that come too late

A request may be reported both got and failed. The first report counts, and a
later one finds the request settled. `to_failed` marks the group as failed all
the same, before it looks at the request.

* `call_progress` — the first call on each request settles it, and the flag
  tells whether `to_failed` was called at all;
* `late_report_harmless_iff` — where every request is got, the verdict says so
  exactly if no failure was reported before the last of them was.
-/

namespace DatastorQos

open Keyed

variable {Id : Type}

/-- A completed call on a request of a group. -/
inductive GrpCall where
  | toGot (idx : Nat)
  | toFailed (idx : Nat)
  deriving DecidableEq, Repr

namespace GrpCall

/-- The request it is on, -/
def idx : GrpCall → Nat
  | toGot idx => idx
  | toFailed idx => idx

/-- and what it makes of it. -/
def stat : GrpCall → AppTokenStat
  | toGot _ => .got
  | toFailed _ => .failed

def isFailed : GrpCall → Bool
  | toGot _ => false
  | toFailed _ => true

theorem stat_ne_init (c : GrpCall) : c.stat ≠ .init := by
  cases c <;> simp [stat]

end GrpCall

/-- What the first call on a request made of it. -/
def statAfter (calls : List GrpCall) (idx : Nat) : AppTokenStat :=
  match calls.find? fun c => c.idx = idx with
  | some c => c.stat
  | none => .init

theorem statAfter_eq_init_iff {calls : List GrpCall} {idx : Nat} :
    statAfter calls idx = .init ↔ ∀ c ∈ calls, c.idx ≠ idx := by
  unfold statAfter
  cases hFind : calls.find? fun c => c.idx = idx with
  | none => simpa using hFind
  | some c =>
    have hMem := List.mem_of_find?_eq_some hFind
    have hIdx : c.idx = idx := by simpa using List.find?_some hFind
    simp only [c.stat_ne_init, false_iff]
    exact fun hNone => hNone c hMem hIdx

/-- Later calls do not change what an earlier one made of a request. -/
theorem statAfter_append {calls later : List GrpCall} {idx : Nat} :
    statAfter (calls ++ later) idx =
      if statAfter calls idx = .init then statAfter later idx else statAfter calls idx := by
  unfold statAfter
  rw [List.find?_append]
  cases calls.find? fun c => c.idx = idx with
  | none => simp
  | some c => simp [c.stat_ne_init]

theorem statAfter_singleton (c : GrpCall) (idx : Nat) :
    statAfter [c] idx = if c.idx = idx then c.stat else .init := by
  unfold statAfter
  by_cases h : c.idx = idx <;> simp [h]

/-- One more call settles its request, if no other did. -/
theorem statAfter_snoc {calls : List GrpCall} {c : GrpCall} {idx : Nat} :
    statAfter (calls ++ [c]) idx =
      if statAfter calls idx = .init ∧ c.idx = idx then c.stat else statAfter calls idx := by
  rw [statAfter_append, statAfter_singleton]
  by_cases hInit : statAfter calls idx = .init <;> by_cases hIdx : c.idx = idx <;>
    simp [hInit, hIdx]

namespace TokenReqgrp

/-- One call. -/
def call (g : TokenReqgrp Id) : GrpCall → TokenReqgrp Id × QosError
  | .toGot idx => g.toGot idx
  | .toFailed idx => g.toFailed idx

/-- The group after some calls. -/
def after (g : TokenReqgrp Id) (calls : List GrpCall) : TokenReqgrp Id :=
  calls.foldl (fun g c => (g.call c).1) g

variable {g : TokenReqgrp Id} {calls before : List GrpCall} {c : GrpCall}

theorem after_snoc : g.after (calls ++ [c]) = ((g.after calls).call c).1 := by
  simp [after]

/-- What a call does: it settles its request and counts it, or finds it settled. -/
theorem call_cases (g : TokenReqgrp Id) (c : GrpCall) :
    (g.call c).1.failedExist = (g.failedExist || c.isFailed) ∧
    ((∃ r, g.request? c.idx = some r ∧ r.stat = .init ∧
        (g.call c).1.lheadReqgrp = (g.setStat c.idx c.stat).lheadReqgrp ∧
        (g.call c).1.reqPendingNr = g.reqPendingNr - 1 ∧
        (g.call c).2 = if g.reqPendingNr - 1 = 0 then (g.call c).1.verdictFlag else .pending) ∨
      (∀ r, g.request? c.idx = some r → r.stat ≠ .init) ∧
        (g.call c).1.lheadReqgrp = g.lheadReqgrp ∧
        (g.call c).1.reqPendingNr = g.reqPendingNr ∧ (g.call c).2 = .pending) := by
  cases c with
  | toGot idx =>
    simp only [call, toGot, GrpCall.idx, GrpCall.stat, GrpCall.isFailed]
    rcases g.casStat_cases idx .got with ⟨r, hr, hInit, hCas⟩ | ⟨hNone, hCas⟩ <;> rw [hCas]
    · simp only
      by_cases hLast : (g.setStat idx .got).subPending.reqPendingNr = 0
      · simp only [if_pos hLast]
        exact ⟨by simp, Or.inl ⟨r, hr, hInit, rfl, rfl, (if_pos hLast).symm⟩⟩
      · simp only [if_neg hLast]
        exact ⟨by simp, Or.inl ⟨r, hr, hInit, rfl, rfl, (if_neg hLast).symm⟩⟩
    · exact ⟨by simp, Or.inr ⟨hNone, rfl, rfl, rfl⟩⟩
  | toFailed idx =>
    simp only [call, toFailed, GrpCall.idx, GrpCall.stat, GrpCall.isFailed]
    rcases g.setFailedExist.casStat_cases idx .failed with
      ⟨r, hr, hInit, hCas⟩ | ⟨hNone, hCas⟩ <;> rw [hCas]
    · simp only
      by_cases hLast : (g.setFailedExist.setStat idx .failed).subPending.reqPendingNr = 0
      · simp only [if_pos hLast]
        exact ⟨by simp, Or.inl ⟨r, hr, hInit, rfl, rfl, (if_pos hLast).symm⟩⟩
      · simp only [if_neg hLast]
        exact ⟨by simp, Or.inl ⟨r, hr, hInit, rfl, rfl, (if_neg hLast).symm⟩⟩
    · exact ⟨by simp, Or.inr ⟨hNone, rfl, rfl, rfl⟩⟩

/-- How far the calls got. -/
structure Progress (g : TokenReqgrp Id) (calls : List GrpCall) (g' : TokenReqgrp Id) : Prop where
  reqs    : g'.lheadReqgrp = g.lheadReqgrp.map fun r => { r with stat := statAfter calls r.idx }
  pending : g'.reqPendingNr = g'.initNr
  flag    : g'.failedExist = calls.any GrpCall.isFailed

theorem Progress.distinct (hFresh : g.Fresh) {g' : TokenReqgrp Id} (h : Progress g calls g') :
    Distinct TokenReq.idx g'.lheadReqgrp := by
  rw [h.reqs, Distinct, List.map_map]
  exact hFresh.distinct

theorem Progress.stat_eq {g' : TokenReqgrp Id} (h : Progress g calls g') {idx : Nat}
    {r : TokenReq Id} (hr : g'.request? idx = some r) : r.stat = statAfter calls idx := by
  have hMem := mem_of_lookup hr
  rw [h.reqs] at hMem
  obtain ⟨r₀, -, rfl⟩ := List.mem_map.mp hMem
  rw [← key_of_lookup hr]

/-- The requests after one more call, -/
theorem Progress.reqs_call (hFresh : g.Fresh) {g' : TokenReqgrp Id} (h : Progress g calls g')
    (c : GrpCall) : (g'.call c).1.lheadReqgrp =
      g.lheadReqgrp.map fun r => { r with stat := statAfter (calls ++ [c]) r.idx } := by
  rcases (g'.call_cases c).2 with ⟨r, hr, hInit, hReqs, -⟩ | ⟨hSettled, hReqs, -⟩
  · -- the request was still in `init`
    have hFirst : statAfter calls c.idx = .init := (h.stat_eq hr).symm.trans hInit
    rw [hReqs, setStat, h.reqs, Keyed.modify, List.map_map]
    refine List.map_congr_left fun r₀ _ => ?_
    simp only [Function.comp_apply, statAfter_snoc]
    by_cases hIdx : r₀.idx = c.idx
    · rw [if_pos hIdx, if_pos ⟨hIdx ▸ hFirst, hIdx.symm⟩]
    · rw [if_neg hIdx, if_neg fun hSame => hIdx hSame.2.symm]
  · rw [hReqs, h.reqs]
    refine List.map_congr_left fun r₀ hr₀ => ?_
    rw [statAfter_snoc, if_neg]
    rintro ⟨hInit, hIdx⟩
    have hMem : { r₀ with stat := statAfter calls r₀.idx } ∈ g'.lheadReqgrp := by
      rw [h.reqs]
      exact List.mem_map_of_mem hr₀
    have hLookup := lookup_of_mem (h.distinct hFresh) hMem
    simp only [← hIdx] at hLookup
    exact hSettled _ hLookup (hIdx ▸ hInit)

/-- and how many of them are pending. -/
theorem Progress.pending_call (hFresh : g.Fresh) {g' : TokenReqgrp Id} (h : Progress g calls g')
    (c : GrpCall) : (g'.call c).1.reqPendingNr = (g'.call c).1.initNr := by
  rcases (g'.call_cases c).2 with ⟨r, hr, hInit, hReqs, hPending, -⟩ | ⟨-, hReqs, hPending, -⟩
  · have hNr : (g'.call c).1.initNr + 1 = g'.initNr := by
      rw [initNr, hReqs]
      exact initNr_setStat (h.distinct hFresh) hr hInit c.stat_ne_init
    have hBefore := h.pending
    omega
  · rw [hPending, h.pending, initNr, initNr, hReqs]

/-- The first call on each request settles it. -/
theorem call_progress (hFresh : g.Fresh) (calls : List GrpCall) :
    Progress g calls (g.after calls) := by
  induction calls using List.reverseRecOn with
  | nil =>
    refine ⟨?_, ?_, hFresh.no_failed⟩
    · refine (List.map_id _).symm.trans (List.map_congr_left fun r hr => ?_)
      rw [id, statAfter_eq_init_iff.mpr (by simp), ← hFresh.stat_init r hr]
    · rw [show g.after [] = g from rfl, hFresh.pending_eq, hFresh.initNr_eq]
  | append_singleton calls c ih =>
    rw [after_snoc]
    refine ⟨ih.reqs_call hFresh c, ih.pending_call hFresh c, ?_⟩
    rw [((g.after calls).call_cases c).1, ih.flag]
    simp

/-- No request is pending once each has been the target of a call. -/
theorem pending_eq_zero_iff (hFresh : g.Fresh) (calls : List GrpCall) :
    (g.after calls).reqPendingNr = 0 ↔ ∀ r ∈ g.lheadReqgrp, ∃ c ∈ calls, c.idx = r.idx := by
  have hProgress := call_progress hFresh calls
  rw [hProgress.pending, Int.natCast_eq_zero, initNr, hProgress.reqs, List.countP_map,
    List.countP_eq_zero]
  refine forall₂_congr fun r _ => ?_
  simp [statAfter_eq_init_iff]

-- ---------------------------------------------------------------------------
-- The verdict
-- ---------------------------------------------------------------------------

/-- The call that resolves the last request returns `QOS_ERROR_OK`. -/
def VerdictOk (g : TokenReqgrp Id) (calls : List GrpCall) : Prop :=
  ∃ before c later, calls = before ++ c :: later ∧ (g.after before).reqPendingNr ≠ 0 ∧
    (g.after (before ++ [c])).reqPendingNr = 0 ∧ ((g.after before).call c).2 = .ok

/-- Until the call with which each request has been the target of one, none
reports a failure. -/
def NoEarlyReport (g : TokenReqgrp Id) (calls : List GrpCall) : Prop :=
  ∃ before c later, calls = before ++ c :: later ∧
    (¬ ∀ r ∈ g.lheadReqgrp, ∃ c' ∈ before, c'.idx = r.idx) ∧
    (∀ r ∈ g.lheadReqgrp, ∃ c' ∈ before ++ [c], c'.idx = r.idx) ∧
    ∀ c' ∈ before, c'.isFailed = false

/-- The call that resolves the last request, where every request is got: it goes
by what was reported before. -/
theorem verdict_eq (hFresh : g.Fresh) {later : List GrpCall} (hCalls : calls = before ++ c :: later)
    (hGot : ∀ r ∈ (g.after calls).lheadReqgrp, r.stat = .got)
    (hPending : (g.after before).reqPendingNr ≠ 0)
    (hLast : (g.after (before ++ [c])).reqPendingNr = 0) :
    ((g.after before).call c).2 = if before.any GrpCall.isFailed then .failedNode else .ok := by
  have hProgress := call_progress hFresh before
  obtain ⟨hFlag, hCall⟩ := (g.after before).call_cases c
  rw [after_snoc] at hLast
  rcases hCall with ⟨r, hr, hInit, -, hDown, hVerdict⟩ | ⟨-, -, hSame, -⟩
  · -- it is the first call on its request, so it is what made the request got
    have hIsGot : c.isFailed = false := by
      have hMem := mem_of_lookup hr
      rw [hProgress.reqs] at hMem
      obtain ⟨r₀, hr₀, rfl⟩ := List.mem_map.mp hMem
      have hIdx := key_of_lookup hr
      simp only at hIdx
      have hFinal := hGot { r₀ with stat := statAfter calls r₀.idx } (by
        rw [(call_progress hFresh calls).reqs]
        exact List.mem_map_of_mem hr₀)
      simp only at hFinal hInit
      rw [hCalls, List.append_cons, statAfter_append, statAfter_append, hInit, if_pos rfl,
        statAfter_singleton, if_pos hIdx.symm, if_neg c.stat_ne_init] at hFinal
      cases c with
      | toGot idx => rfl
      | toFailed idx => cases hFinal
    rw [hVerdict, if_pos (hDown ▸ hLast), verdictFlag, hFlag, hIsGot, Bool.or_false, hProgress.flag]
  · exact absurd (hSame ▸ hLast) hPending

/-- **Late reports of a failure.** Where every request of a group is got in the
end, the verdict is `QOS_ERROR_OK` exactly if no failure was reported before the
last request was got. -/
theorem late_report_harmless_iff (hFresh : g.Fresh)
    (hGot : ∀ r ∈ (g.after calls).lheadReqgrp, r.stat = .got) :
    VerdictOk g calls ↔ NoEarlyReport g calls := by
  refine exists_congr fun before => exists_congr fun c => exists_congr fun later => ?_
  refine and_congr_right fun hCalls => ?_
  rw [← pending_eq_zero_iff hFresh, ← pending_eq_zero_iff hFresh]
  refine and_congr_right fun hPending => and_congr_right fun hLast => ?_
  rw [verdict_eq hFresh hCalls hGot hPending hLast]
  cases hAny : before.any GrpCall.isFailed with
  | true =>
    obtain ⟨c', hMem, hFailed⟩ := List.any_eq_true.mp hAny
    refine ⟨fun hOk => by simp at hOk, fun hNone => ?_⟩
    rw [hNone c' hMem] at hFailed
    cases hFailed
  | false =>
    exact ⟨fun _ c' hMem => by simpa using List.any_eq_false.mp hAny c' hMem, fun _ => rfl⟩

section TwoRequests

/-- A group of two requests, just made. -/
def twoRequests : TokenReqgrp Nat :=
  (tokenReqgrpInit 0 (.init 2) [⟨0, 3⟩, ⟨1, 4⟩] 0).1

theorem twoRequests_fresh : twoRequests.Fresh :=
  (tokenReqgrpInit_spec (show tokenReqgrpInit 0 (.init 2) [⟨0, 3⟩, ⟨1, 4⟩] 0 =
    (twoRequests, ⟨2, 2, 0⟩, .ok) from rfl)).1

/-- A report after both are got. -/
theorem late_report_after_both : VerdictOk twoRequests [.toGot 0, .toGot 1, .toFailed 0] := by
  refine (late_report_harmless_iff twoRequests_fresh (by decide)).mpr ?_
  exact ⟨[.toGot 0], .toGot 1, [.toFailed 0], rfl, by decide, by decide, by decide⟩

/-- A report on a request that is got, while the other is not. -/
theorem late_report_fails_the_group :
    ¬ ∀ (g : TokenReqgrp Nat) (calls : List GrpCall), g.Fresh →
      (∀ r ∈ (g.after calls).lheadReqgrp, r.stat = .got) → VerdictOk g calls := by
  intro hAlways
  obtain ⟨before, c, later, hCalls, hPending, hLast, hOk⟩ :=
    hAlways twoRequests [.toGot 0, .toFailed 0, .toGot 1] twoRequests_fresh (by decide)
  rw [verdict_eq twoRequests_fresh hCalls (by decide) hPending hLast] at hOk
  obtain _ | ⟨c₁, _ | ⟨c₂, before⟩⟩ := before <;>
    simp only [List.cons_append, List.nil_append, List.cons.injEq] at hCalls
  · obtain ⟨rfl, -⟩ := hCalls
    exact absurd hLast (by decide)
  · obtain ⟨rfl, rfl, -⟩ := hCalls
    exact absurd hLast (by decide)
  · obtain ⟨rfl, rfl, -⟩ := hCalls
    simp [GrpCall.isFailed] at hOk

end TwoRequests

end TokenReqgrp

end DatastorQos
