import DatastorQos.Dispatcher.Announcements
import DatastorQos.Lib.Apportion

/-!
# datastor_qos — what the dispatcher has given out

`dtn_alloc` hands out tokens with the fence id of the node, and `dtn_free` takes
them back if they carry it. Tokens of an earlier incarnation of the same id have
another one. `tokenInuse` should be what this incarnation has given out and not
got back.

* `use_call` — one call keeps the account, and only returning tokens of this
  incarnation does not come back from its assertion;
* `use_accounted_iff` — over whole runs, every call returns with the account
  right exactly if no call returns tokens of this incarnation;
* `free_of_own_grant_aborts` — `dtn_free` asserts that less is in use than is
  given back, where it means that no more is given back than is in use.
-/

namespace DatastorQos

open Apportion

/-- Tokens that a `dtn_alloc` gave out. -/
structure Grant where
  cost    : ULong
  fenceId : ULong
  deriving DecidableEq, Repr

/-- A node and the grants, of any incarnation, that are not returned yet. -/
structure UseState where
  node        : AppNode
  outstanding : List Grant
  deriving DecidableEq, Repr

namespace UseState

/-- What is outstanding of this incarnation. -/
def own (s : UseState) : List Grant :=
  s.outstanding.filter fun g => g.fenceId = s.node.fenceId

/-- The outstanding grants after a call. -/
def settle (s : UseState) : AppNodeCall → List Grant
  | .alloc cost => match s.node.dtnAlloc cost 0 with
    | (_, .ok, fenceId) => ⟨cost, fenceId⟩ :: s.outstanding
    | _ => s.outstanding
  | .free cost fenceId => s.outstanding.erase ⟨cost, fenceId⟩
  | _ => s.outstanding

/-- One call; `none` is an assertion failing. -/
def call (s : UseState) (c : AppNodeCall) : Option UseState :=
  (c.apply s.node).map fun node => ⟨node, s.settle c⟩

/-- Only outstanding grants are returned, and what the incarnation has out
stays within one word. The assertions of the other calls are their callers'
business. -/
structure Legal (s : UseState) (c : AppNodeCall) : Prop where
  granted : ∀ cost fenceId, c = .free cost fenceId → ⟨cost, fenceId⟩ ∈ s.outstanding
  returns : (∀ cost fenceId, c ≠ .free cost fenceId) → (s.call c).isSome
  inRange : ∀ s', s.call c = some s' → total Grant.cost s'.own < 2 ^ 64

/-- The calls are made one after the other, each of them legal where it is
made. -/
def LegalCalls (s : UseState) : List AppNodeCall → Prop
  | [] => True
  | c :: cs => s.Legal c ∧ ∀ s', s.call c = some s' → s'.LegalCalls cs

/-- A call that returns is legal if it gives back what was granted. -/
theorem LegalCalls.of_returns {s s' : UseState} {c : AppNodeCall} {cs : List AppNodeCall}
    (hCall : s.call c = some s')
    (hGranted : ∀ cost fenceId, c = .free cost fenceId → ⟨cost, fenceId⟩ ∈ s.outstanding)
    (hRange : total Grant.cost s'.own < 2 ^ 64) (h : s'.LegalCalls cs) : s.LegalCalls (c :: cs) := by
  refine ⟨⟨hGranted, fun _ => hCall ▸ rfl, fun t ht => ?_⟩, fun t ht => ?_⟩
  · obtain rfl := Option.some.inj (hCall.symm.trans ht)
    exact hRange
  · obtain rfl := Option.some.inj (hCall.symm.trans ht)
    exact h

/-- `tokenInuse` is what this incarnation has out. -/
def Balanced (s : UseState) : Prop :=
  s.node.tokenInuse.toNat = total Grant.cost s.own

/-- A call that returns tokens leaves less in use. -/
def NoWrap (s : UseState) (c : AppNodeCall) (s' : UseState) : Prop :=
  ∀ cost fenceId, c = .free cost fenceId → s'.node.tokenInuse ≤ s.node.tokenInuse

/-- Every call comes back, and finds and leaves the account right. -/
def Accounted (s : UseState) : List AppNodeCall → Prop
  | [] => s.Balanced
  | c :: cs => s.Balanced ∧ ∃ s', s.call c = some s' ∧ s.NoWrap c s' ∧ s'.Accounted cs

variable {s s' : UseState} {c : AppNodeCall}

-- ---------------------------------------------------------------------------
-- What one call does
-- ---------------------------------------------------------------------------

/-- The calls that give out and take back no tokens. -/
theorem apply_of_quiet {node node' : AppNode} (h : c.apply node = some node')
    (hAlloc : ∀ cost, c ≠ .alloc cost) (hFree : ∀ cost fenceId, c ≠ .free cost fenceId) :
    node'.tokenInuse = node.tokenInuse ∧ node'.fenceId = node.fenceId := by
  cases c with
  | online tokens =>
    obtain ⟨⟨tokens', node₁, err⟩, hOnline, rfl⟩ := Option.map_eq_some_iff.mp h
    rcases TokenGlobal.online_cases hOnline with ⟨-, -, -, rfl⟩ | ⟨-, -, rfl, -⟩ <;>
      exact ⟨rfl, rfl⟩
  | updateTokenQuotaNew quota =>
    obtain ⟨⟨node₁, pri, quota'⟩, hSet, rfl⟩ := Option.map_eq_some_iff.mp h
    rcases AppNode.updateTokenQuotaNew_version hSet with rfl | rfl <;> exact ⟨rfl, rfl⟩
  | updateTokenQuota =>
    obtain rfl := Option.some.inj h
    exact ⟨rfl, rfl⟩
  | rcvd a2d =>
    obtain rfl := Option.some.inj h
    rcases node.rcvd_cases a2d 0 with ⟨⟨press, heq⟩, -⟩ | ⟨-, -, heq⟩ <;> rw [heq] <;>
      exact ⟨rfl, rfl⟩
  | alloc cost => exact absurd rfl (hAlloc cost)
  | free cost fenceId => exact absurd rfl (hFree cost fenceId)

/-- A call other than the return of an own grant gives out tokens, takes back
those of another incarnation, or does neither. -/
theorem call_cases (h : s.call c = some s') (hOwn : ∀ cost, c ≠ .free cost s.node.fenceId) :
    s'.node.fenceId = s.node.fenceId ∧
      ((∃ cost, c = .alloc cost ∧ s'.node.tokenInuse = s.node.tokenInuse + cost ∧
          s'.own = ⟨cost, s.node.fenceId⟩ :: s.own) ∨
        s'.node.tokenInuse = s.node.tokenInuse ∧ s'.own = s.own) := by
  obtain ⟨node', hApply, rfl⟩ := Option.map_eq_some_iff.mp h
  cases c with
  | alloc cost =>
    obtain rfl := Option.some.inj hApply
    by_cases hFits : s.node.tokenInuse + cost > s.node.tokenQuota
    · have heq : s.node.dtnAlloc cost 0 = (s.node, .tooBigCost, 0) := if_pos hFits
      refine ⟨by rw [heq], Or.inr ⟨by rw [heq], ?_⟩⟩
      simp only [own, settle, heq]
    · have heq : s.node.dtnAlloc cost 0 =
          ({ s.node with tokenInuse := s.node.tokenInuse + cost }, .ok, s.node.fenceId) :=
        if_neg hFits
      refine ⟨by rw [heq], Or.inl ⟨cost, rfl, by rw [heq], ?_⟩⟩
      simp only [own, settle, heq, decide_true, List.filter_cons_of_pos]
  | free cost fenceId =>
    have hOther : s.node.fenceId ≠ fenceId := by
      rintro rfl
      exact hOwn cost rfl
    have heq : s.node.dtnFree cost fenceId = some s.node := if_pos hOther
    obtain rfl := Option.some.inj (heq.symm.trans hApply)
    refine ⟨rfl, Or.inr ⟨rfl, ?_⟩⟩
    -- the grant that is erased is none of this incarnation
    simp only [own, settle, ← List.erase_filter]
    refine List.erase_of_not_mem fun hMem => ?_
    have hSame := (List.mem_filter.mp hMem).2
    exact hOther (of_decide_eq_true hSame).symm
  | online tokens =>
    obtain ⟨hInuse, hFence⟩ := apply_of_quiet hApply (by simp) (by simp)
    exact ⟨hFence, Or.inr ⟨hInuse, by simp only [own, settle, hFence]⟩⟩
  | updateTokenQuotaNew quota =>
    obtain ⟨hInuse, hFence⟩ := apply_of_quiet hApply (by simp) (by simp)
    exact ⟨hFence, Or.inr ⟨hInuse, by simp only [own, settle, hFence]⟩⟩
  | updateTokenQuota =>
    obtain ⟨hInuse, hFence⟩ := apply_of_quiet hApply (by simp) (by simp)
    exact ⟨hFence, Or.inr ⟨hInuse, by simp only [own, settle, hFence]⟩⟩
  | rcvd a2d =>
    obtain ⟨hInuse, hFence⟩ := apply_of_quiet hApply (by simp) (by simp)
    exact ⟨hFence, Or.inr ⟨hInuse, by simp only [own, settle, hFence]⟩⟩

/-- An own grant is no more than what is in use, and so `dtn_free` does not take
it back. -/
theorem call_free_own (hBalanced : s.Balanced) {cost : ULong}
    (hGranted : ⟨cost, s.node.fenceId⟩ ∈ s.outstanding) :
    s.call (.free cost s.node.fenceId) = none := by
  have hOwn : ⟨cost, s.node.fenceId⟩ ∈ s.own := by
    simp [own, hGranted]
  have hLe : cost.toNat ≤ s.node.tokenInuse.toNat := by
    rw [hBalanced]
    exact le_total_of_mem Grant.cost hOwn
  have hAssert : ¬ s.node.tokenInuse < cost := by
    rw [BitVec.lt_def]
    exact Nat.not_lt.mpr hLe
  have heq : s.node.dtnFree cost s.node.fenceId = none := by
    unfold AppNode.dtnFree
    rw [if_neg (not_not_intro rfl), if_neg hAssert]
  exact congrArg (Option.map _) heq

/-- **One call** keeps the account and returns, exactly if it does not return an
own grant. -/
theorem use_call (hBalanced : s.Balanced) (hLegal : s.Legal c) :
    ((s.call c).isSome ↔ ∀ cost, c ≠ .free cost s.node.fenceId) ∧
      ∀ s', s.call c = some s' →
        s'.Balanced ∧ s'.node.fenceId = s.node.fenceId ∧ s.NoWrap c s' := by
  have hReturns : (s.call c).isSome ↔ ∀ cost, c ≠ .free cost s.node.fenceId := by
    constructor
    · rintro hSome cost rfl
      rw [call_free_own hBalanced (hLegal.granted _ _ rfl)] at hSome
      cases hSome
    · intro hOther
      by_cases hFree : ∃ cost fenceId, c = .free cost fenceId
      · obtain ⟨cost, fenceId, rfl⟩ := hFree
        have hFence : s.node.fenceId ≠ fenceId := by
          rintro rfl
          exact hOther cost rfl
        have heq : s.node.dtnFree cost fenceId = some s.node := if_pos hFence
        simp [call, AppNodeCall.apply, heq]
      · exact hLegal.returns fun cost fenceId heq => hFree ⟨cost, fenceId, heq⟩
  refine ⟨hReturns, fun s' hCall => ?_⟩
  have hOther := hReturns.mp (hCall ▸ rfl)
  obtain ⟨hFence, ⟨cost, rfl, hInuse, hOwn⟩ | ⟨hInuse, hOwn⟩⟩ := call_cases hCall hOther
  · refine ⟨?_, hFence, by rintro _ _ ⟨⟩⟩
    have hRange := hLegal.inRange s' hCall
    unfold Balanced at hBalanced ⊢
    rw [hOwn, total_cons] at hRange ⊢
    rw [hInuse, BitVec.toNat_add, hBalanced]
    dsimp only at hRange ⊢
    omega
  · refine ⟨?_, hFence, fun _ _ _ => BitVec.le_of_eq hInuse⟩
    unfold Balanced at hBalanced ⊢
    rw [hInuse, hOwn, hBalanced]

-- ---------------------------------------------------------------------------
-- Whole runs
-- ---------------------------------------------------------------------------

theorem accounted_iff {cs : List AppNodeCall} (hBalanced : s.Balanced) (hLegal : s.LegalCalls cs) :
    s.Accounted cs ↔ ∀ cost, .free cost s.node.fenceId ∉ cs := by
  induction cs generalizing s with
  | nil => simpa [Accounted] using hBalanced
  | cons c cs ih =>
    obtain ⟨hLegal, hLater⟩ := hLegal
    obtain ⟨hReturns, hKeeps⟩ := use_call hBalanced hLegal
    simp only [List.mem_cons, not_or, forall_and]
    constructor
    · rintro ⟨-, s', hCall, -, hAccounted⟩
      obtain ⟨hBalanced', hFence, -⟩ := hKeeps s' hCall
      refine ⟨fun cost heq => hReturns.mp (hCall ▸ rfl) cost heq.symm, ?_⟩
      rw [← hFence]
      exact (ih hBalanced' (hLater s' hCall)).mp hAccounted
    · rintro ⟨hFirst, hRest⟩
      obtain ⟨s', hCall⟩ :=
        Option.isSome_iff_exists.mp (hReturns.mpr fun cost heq => hFirst cost heq.symm)
      obtain ⟨hBalanced', hFence, hNoWrap⟩ := hKeeps s' hCall
      refine ⟨hBalanced, s', hCall, hNoWrap, (ih hBalanced' (hLater s' hCall)).mpr ?_⟩
      rw [hFence]
      exact hRest

/-- A new incarnation; what is outstanding is from earlier ones. -/
def Init (s : UseState) : Prop :=
  (∃ ptr minUnits fenceId, s.node = .init ptr minUnits fenceId) ∧
    ∀ g ∈ s.outstanding, g.fenceId ≠ s.node.fenceId

theorem Init.balanced (h : s.Init) : s.Balanced := by
  obtain ⟨⟨ptr, minUnits, fenceId, hNode⟩, hOther⟩ := h
  have hOwn : s.own = [] := by
    unfold own
    rw [List.filter_eq_nil_iff]
    simpa using hOther
  unfold Balanced
  rw [hOwn, hNode]
  rfl

end UseState

/-- **The dispatcher's account** of what an app has in use is right, in exactly
the runs that return no tokens of this incarnation. -/
theorem use_accounted_iff {s : UseState} {cs : List AppNodeCall} (hInit : s.Init)
    (hLegal : s.LegalCalls cs) :
    s.Accounted cs ↔ ∀ cost, .free cost s.node.fenceId ∉ cs :=
  UseState.accounted_iff hInit.balanced hLegal

section OneGrant

/-- An incarnation with fence id 7; 3 tokens of the one with fence id 6 are still
out. -/
def seventh : UseState := ⟨.init 0 10 7, [⟨3, 6⟩]⟩

theorem seventh_init : seventh.Init :=
  ⟨⟨0, 10, 7, rfl⟩, by decide⟩

def seventhOnline : UseState :=
  ⟨{ AppNode.init 0 10 7 with tokenQuota := 10, tokenQuotaNew := 10 }, [⟨3, 6⟩]⟩

/-- The same incarnation, with 5 tokens given out. -/
def seventhInUse : UseState :=
  ⟨{ seventhOnline.node with tokenInuse := 5 }, [⟨5, 7⟩, ⟨3, 6⟩]⟩

theorem legalCalls_seventh {cs : List AppNodeCall} (h : seventhInUse.LegalCalls cs) :
    seventh.LegalCalls (.online poolForOne :: .alloc 5 :: cs) := by
  have hOnline : seventh.call (.online poolForOne) = some seventhOnline := by decide
  have hAlloc : seventhOnline.call (.alloc 5) = some seventhInUse := by decide
  exact .of_returns hOnline (by simp) (by decide) (.of_returns hAlloc (by simp) (by decide) h)

/-- The old tokens come back, and change nothing. -/
theorem use_accounted_stale :
    seventh.Accounted [.online poolForOne, .alloc 5, .free 3 6] := by
  have hStale : seventhInUse.call (.free 3 6) = some ⟨seventhInUse.node, [⟨5, 7⟩]⟩ := by decide
  refine (use_accounted_iff seventh_init (legalCalls_seventh ?_)).mpr fun cost => ?_
  · exact .of_returns hStale (by simp [seventhInUse]) (by decide) trivial
  · simp [seventh, AppNode.init]

/-- 5 tokens are given out, and cannot be returned. -/
theorem free_of_own_grant_aborts :
    ¬ ∀ (s : UseState) (cs : List AppNodeCall), s.Init → s.LegalCalls cs → s.Accounted cs := by
  intro hAlways
  have hAborts : seventhInUse.call (.free 5 7) = none := by decide
  have hLegal : seventhInUse.LegalCalls [.free 5 7] := by
    refine ⟨⟨by simp [seventhInUse], fun h => absurd rfl (h 5 7), ?_⟩, ?_⟩ <;>
    · intro s' h
      rw [hAborts] at h
      cases h
  obtain ⟨-, s₁, hOnline, -, -, s₂, hAlloc, -, -, s₃, hFree, -⟩ :=
    hAlways seventh _ seventh_init (legalCalls_seventh hLegal)
  obtain rfl : seventhOnline = s₁ := Option.some.inj hOnline
  obtain rfl : seventhInUse = s₂ := Option.some.inj hAlloc
  rw [hAborts] at hFree
  cases hFree

end OneGrant

end DatastorQos
