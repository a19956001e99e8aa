import DatastorQos.Dispatcher.Debt

/-!
# datastor_qos — the reserve

Tokens of apps that went can be kept in reserve for new ones, up to a maximum
that is 0 from the start and that only `set_max_rsvr` changes.

* `shrink_all_or_nothing_iff` — without a maximum `could_decrease` compares with
  0, so that `try_decrease` never refuses: it is right for no more units than
  each counter has;
* `offline_undoes_online_iff` — under any maximum, an app that comes online and
  goes leaves the counters as they were exactly in the states of `ComesBack`.
-/

namespace DatastorQos

open Runs

-- ---------------------------------------------------------------------------
-- The reserve within its maximum
-- ---------------------------------------------------------------------------

/-- The calls on a `token_global`, with `set_max_rsvr`. -/
inductive ReserveCall where
  | token (call : TokenCall)
  | setMaxRsvr (appMaxRsvr : ULong)

/-- A node that comes online has no tokens. One that goes may have any number by
then, whatever it came with. -/
def TokenCall.Fresh : TokenCall → Prop
  | .online node => node.tokenQuota = 0
  | _ => True

/-- What a call leaves behind, if it returns. -/
def ReserveCall.Step (s : TokenState) : ReserveCall → TokenState → Prop
  | .token call, s' => call.Fresh ∧ call.apply s = some s'
  | .setMaxRsvr appMaxRsvr, s' => s' = { s with tokens := s.tokens.setMaxRsvr appMaxRsvr }

def reserveSystem : System TokenState ReserveCall where
  init := tokenSystem.init
  step s call s' := call.Step s s'

/-- The same, where no one calls `set_max_rsvr`. -/
def noReserveSystem : System TokenState ReserveCall :=
  reserveSystem.restrict fun _ call => ∀ appMaxRsvr, call ≠ .setMaxRsvr appMaxRsvr

namespace TokenGlobal

variable {tokens : TokenGlobal} {node : AppNode} {units : ULong}

/-- The reserve is within its maximum. -/
def RsvrWithin (tokens : TokenGlobal) : Prop := tokens.appTokenRsvr ≤ tokens.appMaxTokenRsvr

theorem RsvrWithin.letIn (h : tokens.RsvrWithin) : tokens.letIn.RsvrWithin := by
  have hRsvr := ULong.cmin_le_left tokens.appTokenRsvr tokens.defaultTokenMin
  unfold RsvrWithin at *
  simp only [TokenGlobal.letIn, fromRsvr]
  bv_omega

theorem RsvrWithin.letGo (h : tokens.RsvrWithin) (node : AppNode) :
    (tokens.letGo node).RsvrWithin := by
  have hRsvr := ULong.cmin_le_left (tokens.appMaxTokenRsvr - tokens.appTokenRsvr) node.tokenQuota
  unfold RsvrWithin at *
  simp only [TokenGlobal.letGo, toRsvr]
  bv_omega

theorem RsvrWithin.setMaxRsvr (tokens : TokenGlobal) (appMaxRsvr : ULong) :
    (tokens.setMaxRsvr appMaxRsvr).RsvrWithin := by
  unfold RsvrWithin
  simp only [TokenGlobal.setMaxRsvr]
  split <;> bv_omega

end TokenGlobal

variable {s s' : TokenState} {node : AppNode} {units : ULong}

/-- A call keeps the reserve within its maximum, and the maximum. -/
theorem rsvr_step {call : TokenCall} (h : s.tokens.RsvrWithin) (hFresh : call.Fresh)
    (hApply : call.apply s = some s') :
    s'.tokens.RsvrWithin ∧ s'.tokens.appMaxTokenRsvr = s.tokens.appMaxTokenRsvr := by
  by_cases hOnline : ∃ node, call = .online node
  · obtain ⟨node, rfl⟩ := hOnline
    obtain ⟨res, hOnline, rfl⟩ := Option.map_eq_some_iff.mp hApply
    rw [s.tokens.online_fresh hFresh] at hOnline
    split at hOnline <;> obtain rfl := Option.some.inj hOnline
    · exact ⟨h.letIn, rfl⟩
    · exact ⟨h, rfl⟩
  · by_cases hOffline : ∃ node, call = .offline node
    · obtain ⟨node, rfl⟩ := hOffline
      obtain ⟨⟨tokens', node'⟩, hOffline, rfl⟩ := Option.map_eq_some_iff.mp hApply
      obtain ⟨-, rfl⟩ := TokenGlobal.letGo_of_offline hOffline
      exact ⟨h.letGo node, rfl⟩
    · obtain ⟨-, -, hRsvr, hMax⟩ :=
        TokenCall.keeps_apps (not_exists.mp hOnline) (not_exists.mp hOffline) hApply
      refine ⟨?_, hMax⟩
      unfold TokenGlobal.RsvrWithin
      rw [hRsvr, hMax]
      exact h

theorem rsvrWithin_of_reachable (h : Reachable reserveSystem s) : s.tokens.RsvrWithin := by
  refine h.invariant (I := fun s => s.tokens.RsvrWithin) (fun s hInit => ?_) fun s call s' hs hStep => ?_
  · obtain ⟨maxNodeNr, minPerNode, rfl⟩ := hInit
    exact BitVec.le_refl _
  · cases call with
    | token call => exact (rsvr_step hs hStep.1 hStep.2).1
    | setMaxRsvr appMaxRsvr =>
      obtain rfl := hStep
      exact .setMaxRsvr s.tokens appMaxRsvr

/-- Without `set_max_rsvr` there is no reserve. -/
theorem no_reserve (h : Reachable noReserveSystem s) :
    s.tokens.appMaxTokenRsvr - s.tokens.appTokenRsvr = 0 := by
  have hNone : s.tokens.RsvrWithin ∧ s.tokens.appMaxTokenRsvr = 0 := by
    refine h.invariant (I := fun s => s.tokens.RsvrWithin ∧ s.tokens.appMaxTokenRsvr = 0)
      (fun s hInit => ?_) fun s call s' hs hStep => ?_
    · obtain ⟨maxNodeNr, minPerNode, rfl⟩ := hInit
      exact ⟨BitVec.le_refl _, rfl⟩
    · obtain ⟨hNotMax, hStep⟩ := hStep
      cases call with
      | token call =>
        obtain ⟨hWithin, hMax⟩ := rsvr_step hs.1 hStep.1 hStep.2
        exact ⟨hWithin, hMax.trans hs.2⟩
      | setMaxRsvr appMaxRsvr => exact absurd rfl (hNotMax appMaxRsvr)
  obtain ⟨hWithin, hMax⟩ := hNone
  unfold TokenGlobal.RsvrWithin at hWithin
  bv_omega

-- ---------------------------------------------------------------------------
-- Shrinking the pool
-- ---------------------------------------------------------------------------

namespace TokenGlobal

/-- The counters of the pool fall by `units`, what is free by as much as there
is, and nothing else changes. -/
structure FellBy (tokens : TokenGlobal) (units : ULong) (tokens' : TokenGlobal) : Prop where
  total      : tokens'.tokenTotal.toNat + units.toNat = tokens.tokenTotal.toNat
  dynamic    : tokens'.tokenDynamic.toNat + units.toNat = tokens.tokenDynamic.toNat
  dynamicNew : tokens'.tokenDynamicNew.toNat + units.toNat = tokens.tokenDynamicNew.toNat
  free       : tokens'.tokenFree.toNat = tokens.tokenFree.toNat - units.toNat
  others     : tokens' = { tokens with
    tokenTotal      := tokens'.tokenTotal
    tokenDynamic    := tokens'.tokenDynamic
    tokenDynamicNew := tokens'.tokenDynamicNew
    tokenFree       := tokens'.tokenFree }

/-- `try_decrease` changes nothing, or takes `units` that are there. -/
def AllOrNothing (tokens : TokenGlobal) (units : ULong) : Prop :=
  (tokens.tryDecrease units).2 = false ∧ (tokens.tryDecrease units).1 = tokens ∨
  (tokens.tryDecrease units).2 = true ∧ tokens.FellBy units (tokens.tryDecrease units).1

/-- Each counter of the pool has `units`. -/
def PoolHas (tokens : TokenGlobal) (units : ULong) : Prop :=
  units ≤ tokens.tokenTotal ∧ units ≤ tokens.tokenDynamic ∧ units ≤ tokens.tokenDynamicNew

end TokenGlobal

/-- **Shrinking the pool** is all or nothing exactly for what its counters have:
the guard refuses nothing. -/
theorem shrink_all_or_nothing_iff (h : Reachable noReserveSystem s) (units : ULong) :
    s.tokens.AllOrNothing units ↔ s.tokens.PoolHas units := by
  have hCould : s.tokens.couldDecrease units = true := by
    unfold TokenGlobal.couldDecrease
    rw [no_reserve h, decide_eq_true_eq]
    exact BitVec.not_lt_zero
  unfold TokenGlobal.AllOrNothing TokenGlobal.PoolHas
  simp only [TokenGlobal.tryDecrease, if_pos hCould, Bool.true_eq_false, false_and, false_or,
    true_and]
  constructor
  · intro hFell
    have hTotal := hFell.total
    have hDynamic := hFell.dynamic
    have hNew := hFell.dynamicNew
    simp only [BitVec.le_def]
    omega
  · rintro ⟨hTotal, hDynamic, hNew⟩
    have hMin := ULong.toNat_cmin units s.tokens.tokenFree
    refine ⟨?_, ?_, ?_, ?_, rfl⟩
    · exact (congrArg (· + _) (BitVec.toNat_sub_of_le hTotal)).trans (Nat.sub_add_cancel hTotal)
    · exact (congrArg (· + _) (BitVec.toNat_sub_of_le hDynamic)).trans (Nat.sub_add_cancel hDynamic)
    · exact (congrArg (· + _) (BitVec.toNat_sub_of_le hNew)).trans (Nat.sub_add_cancel hNew)
    · have hLeft := BitVec.toNat_sub_of_le (ULong.cmin_le_right units s.tokens.tokenFree)
      refine hLeft.trans ?_
      omega

section TwentyUnits

theorem noApps_reachable : Reachable noReserveSystem (noApps 20 20) := by
  have hInit : noReserveSystem.init ⟨.init 1 10, []⟩ := ⟨1, 10, rfl⟩
  have hIncrease : noReserveSystem.step ⟨.init 1 10, []⟩ (.token (.increase 20)) (noApps 20 20) :=
    ⟨by simp, trivial, rfl⟩
  exact (Reachable.init hInit).step hIncrease

theorem shrink_by_five : (noApps 20 20).tokens.AllOrNothing 5 :=
  (shrink_all_or_nothing_iff noApps_reachable 5).mpr ⟨by decide, by decide, by decide⟩

/-- A pool of 20 is shrunk by 21, to `2 ^ 64 - 1`. -/
theorem pool_shrinks_below_zero :
    ¬ ∀ s : TokenState, Reachable noReserveSystem s → ∀ units, s.tokens.AllOrNothing units := by
  intro hAlways
  rcases hAlways _ noApps_reachable 21 with ⟨hRefused, -⟩ | ⟨-, hFell⟩
  · revert hRefused
    decide
  · have hTotal := hFell.total
    revert hTotal
    decide

end TwentyUnits

-- ---------------------------------------------------------------------------
-- Coming and going
-- ---------------------------------------------------------------------------

namespace TokenGlobal

variable {tokens : TokenGlobal} {node : AppNode}

/-- After coming and going the counters are what they were, and none that was
lowered came out higher. -/
structure RoundTrip (tokens online offline : TokenGlobal) : Prop where
  appNumCur      : offline.appNumCur = tokens.appNumCur
  usedStatic     : offline.tokenUsedStatic = tokens.tokenUsedStatic
  debt           : (offline.tokenDynamic.toNat : ℤ) - offline.tokenDynamicNew.toNat =
    tokens.tokenDynamic.toNat - tokens.tokenDynamicNew.toNat
  inPool         : offline.tokenFree.toNat + offline.appTokenRsvr.toNat =
    tokens.tokenFree.toNat + tokens.appTokenRsvr.toNat
  online_lowers  : online.appTokenRsvr ≤ tokens.appTokenRsvr ∧
    online.tokenFree ≤ tokens.tokenFree ∧ online.tokenDynamicNew ≤ tokens.tokenDynamicNew
  offline_lowers : offline.appNumCur ≤ online.appNumCur ∧
    offline.tokenUsedStatic ≤ online.tokenUsedStatic

/-- The node gets the minimum, both calls return, and the second undoes the
first. -/
def OfflineUndoes (tokens : TokenGlobal) (node : AppNode) : Prop :=
  ∃ online node₁ offline node₂, tokens.online node = some (online, node₁, .ok) ∧
    node₁.tokenQuota = tokens.defaultTokenMin ∧ node₁.tokenQuotaNew = tokens.defaultTokenMin ∧
    online.offline node₁ = some (offline, node₂) ∧ tokens.RoundTrip online offline

/-- What the reserve takes of a minimum that comes back. -/
def refill (tokens : TokenGlobal) : ULong :=
  ULong.cmin (tokens.appMaxTokenRsvr - (tokens.appTokenRsvr - tokens.fromRsvr)) tokens.defaultTokenMin

/-- Nothing is given on credit, no debt is paid when the app goes, and the
counters that go up have room. -/
structure ComesBack (tokens : TokenGlobal) : Prop where
  covered : tokens.defaultTokenMin.toNat ≤ tokens.tokenFree.toNat + tokens.appTokenRsvr.toNat
  debt    : tokens.tokenDynamicNew ≤ tokens.tokenDynamic
  -- the minimum of 0 that `free_to_dynamic` takes is one of these two differences
  settled : tokens.tokenDynamic = tokens.tokenDynamicNew ∨
    tokens.defaultTokenMin - tokens.refill = tokens.tokenUsedStatic
  counted : tokens.appNumCur.toNat + 1 < 2 ^ 64
  static  : tokens.tokenUsedStatic.toNat + tokens.defaultTokenMin.toNat < 2 ^ 64

theorem toNat_fromRsvr (tokens : TokenGlobal) :
    tokens.fromRsvr.toNat = min tokens.appTokenRsvr.toNat tokens.defaultTokenMin.toNat :=
  ULong.toNat_cmin _ _

theorem toNat_fromFree (tokens : TokenGlobal) :
    tokens.fromFree.toNat =
      min tokens.tokenFree.toNat (tokens.defaultTokenMin.toNat - tokens.fromRsvr.toNat) := by
  rw [← BitVec.toNat_sub_of_le tokens.fromRsvr_le]
  exact ULong.toNat_cmin _ _

/-- The reserve and the pool have the minimum exactly if they give it. -/
theorem covered_iff (tokens : TokenGlobal) :
    tokens.defaultTokenMin.toNat ≤ tokens.tokenFree.toNat + tokens.appTokenRsvr.toNat ↔
      tokens.fromRsvr + tokens.fromFree = tokens.defaultTokenMin := by
  have hRsvr := tokens.toNat_fromRsvr
  have hFree := tokens.toNat_fromFree
  have hMin := tokens.defaultTokenMin.isLt
  rw [← BitVec.toNat_inj, BitVec.toNat_add]
  omega

/-- An app that is covered owes nothing, and counts with all it has. -/
theorem letIn_covered (h : tokens.fromRsvr + tokens.fromFree = tokens.defaultTokenMin) :
    tokens.letIn = { tokens with
      appNumCur       := tokens.appNumCur + 1
      appTokenRsvr    := tokens.appTokenRsvr - tokens.fromRsvr
      tokenFree       := tokens.tokenFree - tokens.fromFree
      tokenUsedStatic := tokens.tokenUsedStatic + tokens.defaultTokenMin } := by
  have hOwed : tokens.shortfall = 0 := by
    show tokens.defaultTokenMin - tokens.fromRsvr - tokens.fromFree = 0
    rw [BitVec.sub_sub, h, sub_self]
  unfold letIn
  rw [add_assoc, h, hOwed, sub_zero]

/-- What of the debt an app pays that comes back with all it was given. -/
def repaidBack (tokens : TokenGlobal) : ULong :=
  ULong.cmin (tokens.tokenDynamic - tokens.tokenDynamicNew)
    (tokens.defaultTokenMin - tokens.refill - tokens.tokenUsedStatic)

theorem refill_le (tokens : TokenGlobal) : tokens.refill ≤ tokens.defaultTokenMin :=
  ULong.cmin_le_right _ _

/-- An app with the minimum counts with it when it goes. -/
theorem cmax_toRsvr (tokens : TokenGlobal) (hQuota : node.tokenQuota = tokens.defaultTokenMin) :
    ULong.cmax tokens.defaultTokenMin (node.tokenQuota - tokens.toRsvr node) =
      tokens.defaultTokenMin := by
  have hLess := ULong.cmin_le_right (tokens.appMaxTokenRsvr - tokens.appTokenRsvr) node.tokenQuota
  unfold ULong.cmax toRsvr
  rw [hQuota] at hLess ⊢
  split
  · rfl
  · bv_omega

/-- The counters after an app that was covered has come and gone. -/
theorem letGo_covered (h : tokens.fromRsvr + tokens.fromFree = tokens.defaultTokenMin)
    (hQuota : node.tokenQuota = tokens.defaultTokenMin) :
    tokens.letIn.letGo node = { tokens with
      appTokenRsvr := tokens.appTokenRsvr - tokens.fromRsvr + tokens.refill
      tokenDynamic := tokens.tokenDynamic + tokens.repaidBack
      tokenFree    := tokens.tokenFree - tokens.fromFree +
        (tokens.defaultTokenMin - tokens.refill - tokens.repaidBack) } := by
  have hStatic := tokens.letIn.cmax_toRsvr hQuota
  have hRefill : tokens.letIn.toRsvr node = tokens.refill := by
    unfold toRsvr refill
    rw [hQuota]
    rfl
  have hUsed : tokens.letIn.tokenUsedStatic - tokens.letIn.defaultTokenMin =
      tokens.tokenUsedStatic := by
    rw [letIn_covered h]
    exact add_sub_cancel_right _ _
  have hRepaid : tokens.letIn.repaid node = tokens.repaidBack := by
    unfold repaid repaidBack
    show ULong.cmin (tokens.letIn.tokenDynamic - tokens.letIn.tokenDynamicNew)
      (node.tokenQuota - tokens.letIn.toRsvr node - (tokens.letIn.tokenUsedStatic -
        ULong.cmax tokens.letIn.defaultTokenMin (node.tokenQuota - tokens.letIn.toRsvr node))) = _
    rw [hStatic, hUsed, hQuota, hRefill, letIn_covered h]
  unfold letGo
  rw [hStatic, hUsed, hRepaid, hRefill, hQuota, letIn_covered h]
  simp only [add_sub_cancel_right]

theorem toNat_refill (hWithin : tokens.RsvrWithin) :
    tokens.refill.toNat = min (tokens.appMaxTokenRsvr.toNat -
      (tokens.appTokenRsvr.toNat - tokens.fromRsvr.toNat)) tokens.defaultTokenMin.toNat := by
  have hRsvr : tokens.fromRsvr ≤ tokens.appTokenRsvr := ULong.cmin_le_left _ _
  have hLess : tokens.appTokenRsvr - tokens.fromRsvr ≤ tokens.appMaxTokenRsvr := by
    unfold RsvrWithin at hWithin
    bv_omega
  rw [← BitVec.toNat_sub_of_le hRsvr, ← BitVec.toNat_sub_of_le hLess]
  exact ULong.toNat_cmin _ _

/-- What was taken from the reserve and the pool comes back to them. -/
theorem inPool_covered (hWithin : tokens.RsvrWithin)
    (h : tokens.fromRsvr + tokens.fromFree = tokens.defaultTokenMin) :
    (tokens.tokenFree - tokens.fromFree + (tokens.defaultTokenMin - tokens.refill)).toNat +
        (tokens.appTokenRsvr - tokens.fromRsvr + tokens.refill).toNat =
      tokens.tokenFree.toNat + tokens.appTokenRsvr.toNat := by
  have hRsvr : tokens.fromRsvr ≤ tokens.appTokenRsvr := ULong.cmin_le_left _ _
  have hFree : tokens.fromFree ≤ tokens.tokenFree := ULong.cmin_le_left _ _
  have hGiven : tokens.fromRsvr.toNat + tokens.fromFree.toNat = tokens.defaultTokenMin.toNat := by
    have hCovered := tokens.covered_iff.mpr h
    have hFromRsvr := tokens.toNat_fromRsvr
    have hFromFree := tokens.toNat_fromFree
    omega
  -- the reserve has room for what it gave, and is filled up to its limit at most
  have hRoom : tokens.fromRsvr.toNat ≤ tokens.refill.toNat ∧
      tokens.appTokenRsvr.toNat - tokens.fromRsvr.toNat + tokens.refill.toNat < 2 ^ 64 := by
    have hRefill := toNat_refill hWithin
    have hMax := tokens.appMaxTokenRsvr.isLt
    have hLimit := BitVec.le_def.mp hWithin
    have hLess := BitVec.le_def.mp hRsvr
    omega
  have hPool := tokens.tokenFree.isLt
  rw [BitVec.le_def] at hRsvr hFree
  rw [BitVec.toNat_add, BitVec.toNat_add, BitVec.toNat_sub_of_le (BitVec.le_def.mpr hRsvr),
    BitVec.toNat_sub_of_le (BitVec.le_def.mpr hFree), BitVec.toNat_sub_of_le tokens.refill_le,
    Nat.mod_eq_of_lt hRoom.2, Nat.mod_eq_of_lt (by omega)]
  have hBack := BitVec.le_def.mp tokens.refill_le
  omega

/-- No debt is paid exactly where there is none, or nothing is left to pay it
from. -/
theorem repaidBack_eq_zero_iff : tokens.repaidBack = 0 ↔
    tokens.tokenDynamic = tokens.tokenDynamicNew ∨
      tokens.defaultTokenMin - tokens.refill = tokens.tokenUsedStatic := by
  have hZero : ∀ a b : ULong, ULong.cmin a b = 0 ↔ a = 0 ∨ b = 0 := by
    intro a b
    unfold ULong.cmin
    split <;> bv_omega
  unfold repaidBack
  rw [hZero, sub_eq_zero, sub_eq_zero]

/-- What is taken off `token_used_static` when the app goes was added to it when
the app came: it was covered. -/
theorem covered_of_usedStatic (hQuota : node.tokenQuota = tokens.defaultTokenMin)
    (h : (tokens.letIn.letGo node).tokenUsedStatic = tokens.tokenUsedStatic) :
    tokens.fromRsvr + tokens.fromFree = tokens.defaultTokenMin := by
  have hMin := tokens.letIn.cmax_toRsvr hQuota
  have hSum : tokens.letIn.tokenUsedStatic =
      tokens.tokenUsedStatic + (tokens.fromRsvr + tokens.fromFree) := add_assoc _ _ _
  unfold letGo at h
  rw [hMin, hSum, sub_eq_iff_eq_add] at h
  exact add_left_cancel h

/-- **Coming and going** in one state. -/
theorem offlineUndoes_iff (hWithin : tokens.RsvrWithin) (hFresh : node.tokenQuota = 0)
    (hCheck : tokens.checkUpAppNum.2 = .ok) : tokens.OfflineUndoes node ↔ tokens.ComesBack := by
  have hOnline := tokens.online_fresh hFresh
  rw [if_pos hCheck] at hOnline
  constructor
  · rintro ⟨online, node₁, offline, node₂, heq, hQuota, -, hOffline, hBack⟩
    obtain ⟨rfl, -, -⟩ : online = tokens.letIn ∧ _ ∧ _ := by
      simpa only [Option.some.injEq, Prod.mk.injEq] using heq.symm.trans hOnline
    rw [offline_eq] at hOffline
    split at hOffline
    · rename_i hAsserts
      obtain ⟨rfl, -⟩ := Prod.mk.inj (Option.some.inj hOffline)
      have hAll := covered_of_usedStatic hQuota hBack.usedStatic
      have hDebt := hBack.debt
      have hLowers := hBack.offline_lowers
      rw [letGo_covered hAll hQuota] at hDebt hLowers
      rw [letIn_covered hAll] at hLowers hAsserts
      simp only at hLowers hDebt hAsserts
      refine ⟨tokens.covered_iff.mpr hAll, hAsserts.2, repaidBack_eq_zero_iff.mp ?_, ?_, ?_⟩
      · bv_omega
      · bv_omega
      · bv_omega
    · cases hOffline
  · intro hBack
    have hAll := tokens.covered_iff.mp hBack.covered
    have hRepaid := repaidBack_eq_zero_iff.mpr hBack.settled
    have hAsserts : 0 < tokens.letIn.appNumCur ∧
        tokens.letIn.tokenDynamicNew ≤ tokens.letIn.tokenDynamic := by
      rw [letIn_covered hAll]
      have hCounted := hBack.counted
      exact ⟨by bv_omega, hBack.debt⟩
    refine ⟨_, _, _, _, hOnline, rfl, rfl, (offline_eq _ _).trans (if_pos hAsserts), ?_⟩
    rw [letGo_covered hAll rfl, hRepaid, letIn_covered hAll]
    constructor <;> simp only [add_zero, sub_zero]
    · exact inPool_covered hWithin hAll
    · have hRsvr : tokens.fromRsvr ≤ tokens.appTokenRsvr := ULong.cmin_le_left _ _
      have hFree : tokens.fromFree ≤ tokens.tokenFree := ULong.cmin_le_left _ _
      exact ⟨by bv_omega, by bv_omega, BitVec.le_refl _⟩
    · have hCounted := hBack.counted
      have hStatic := hBack.static
      exact ⟨by bv_omega, by bv_omega⟩

end TokenGlobal

/-- **Offline undoes online**, for every app that is let in, exactly where it
comes back. -/
theorem offline_undoes_online_iff (h : Reachable reserveSystem s) (hFresh : node.tokenQuota = 0)
    (hCheck : s.tokens.checkUpAppNum.2 = .ok) :
    s.tokens.OfflineUndoes node ↔ s.tokens.ComesBack :=
  TokenGlobal.offlineUndoes_iff (rsvrWithin_of_reachable h) hFresh hCheck

section OnCredit

/-- The pool of 20 pays for the app, and gets the tokens back. -/
theorem offline_undoes_online_paid : (noApps 20 20).tokens.OfflineUndoes (appWithoutTokens 0) :=
  (offline_undoes_online_iff noApps_reachable.of_restrict rfl (by decide)).mpr
    ⟨by decide, by decide, Or.inl rfl, by decide, by decide⟩

/-- The pool of 20 is spent: the app comes on credit, counts with nothing, and is
taken off the count with 10 tokens. -/
theorem offline_takes_more_than_online :
    ¬ ∀ (s : TokenState) (node : AppNode), Reachable reserveSystem s → node.tokenQuota = 0 →
      s.tokens.defaultTokenMin.toNat ≤ s.tokens.tokenFree.toNat + s.tokens.appTokenRsvr.toNat +
        s.tokens.tokenDynamicNew.toNat →
      s.tokens.checkUpAppNum.2 = .ok → s.tokens.OfflineUndoes node := by
  intro hAlways
  have hSpend : reserveSystem.step (noApps 20 20) (.token (.tryAlloc 20)) (noApps 20 0) :=
    ⟨trivial, rfl⟩
  obtain ⟨online, node₁, offline, node₂, hOnline, -, -, hOffline, hBack⟩ :=
    hAlways (noApps 20 0) (appWithoutTokens 0) (noApps_reachable.of_restrict.step hSpend) rfl
      (by decide) (by decide)
  have hCame : (noApps 20 0).tokens.online (appWithoutTokens 0) =
      some (((noApps 20 0).owe 0).tokens, ((noApps 20 0).owe 0).nodes.head (by decide), .ok) := rfl
  obtain ⟨rfl, rfl, -⟩ : online = _ ∧ node₁ = _ ∧ _ := by
    simpa only [Option.some.injEq, Prod.mk.injEq] using hOnline.symm.trans hCame
  rw [TokenGlobal.offline_eq, if_pos (by decide)] at hOffline
  obtain ⟨rfl, -⟩ := Prod.mk.inj (Option.some.inj hOffline)
  have hStatic := hBack.usedStatic
  revert hStatic
  decide

end OnCredit

end DatastorQos
