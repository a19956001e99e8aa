import DatastorQos.Dispatcher.TokenGlobal
import DatastorQos.Lib.Runs

/-!
# datastor_qos — the debt counter

The debt of a dispatcher is how far `tokenDynamicNew` is behind `tokenDynamic`.
Only `free_to_dynamic` looks whether it is a debt at all, by an assertion.

* `debt_step_iff` — one call keeps both counters within one word and in order
  exactly if it meets `PaysFromDynamic`;
* `debt_meaningful_iff` — so it is over whole runs;
* `third_app_wraps_debt` — the admission test of `online` does not bound the
  debt: it compares `tokenTotal` with `tokenUsedStatic`, and what an app gets on
  credit is not added to `tokenUsedStatic`.
-/

namespace DatastorQos

open Runs

namespace TokenGlobal

variable {tokens tokens' : TokenGlobal} {node node' : AppNode}

/-- What an app that goes leaves to `tokenDynamic`. -/
def repaid (tokens : TokenGlobal) (node : AppNode) : ULong :=
  let quota := (tokens.freeToRsvr node).2.tokenQuota
  ULong.cmin (tokens.tokenDynamic - tokens.tokenDynamicNew)
    (quota - (tokens.tokenUsedStatic - ULong.cmax tokens.defaultTokenMin quota))

/-- `free_to_dynamic` asserts that the debt is one. -/
theorem isSome_freeToDynamic (tokens : TokenGlobal) (node : AppNode) :
    (tokens.freeToDynamic node).isSome ↔ tokens.tokenDynamicNew ≤ tokens.tokenDynamic := by
  unfold freeToDynamic
  split
  · exact iff_of_true rfl ‹_›
  · exact iff_of_false (by simp) ‹_›

/-- What an app that goes leaves to the reserve. -/
def toRsvr (tokens : TokenGlobal) (node : AppNode) : ULong :=
  ULong.cmin (tokens.appMaxTokenRsvr - tokens.appTokenRsvr) node.tokenQuota

/-- The counters after an app has gone. -/
def letGo (tokens : TokenGlobal) (node : AppNode) : TokenGlobal :=
  { tokens with
    appNumCur       := tokens.appNumCur - 1
    appTokenRsvr    := tokens.appTokenRsvr + tokens.toRsvr node
    tokenUsedStatic := tokens.tokenUsedStatic -
      ULong.cmax tokens.defaultTokenMin (node.tokenQuota - tokens.toRsvr node)
    tokenDynamic    := tokens.tokenDynamic + tokens.repaid node
    tokenFree       := tokens.tokenFree + (node.tokenQuota - tokens.toRsvr node - tokens.repaid node) }

theorem offline_eq (tokens : TokenGlobal) (node : AppNode) :
    tokens.offline node =
      if 0 < tokens.appNumCur ∧ tokens.tokenDynamicNew ≤ tokens.tokenDynamic then
        some (tokens.letGo node, { node with
          tokenQuota := node.tokenQuota - tokens.toRsvr node - tokens.repaid node })
      else none := by
  unfold offline
  by_cases hCur : 0 < tokens.appNumCur
  · by_cases hDebt : tokens.tokenDynamicNew ≤ tokens.tokenDynamic
    · have hDynamic : ({ tokens with appNumCur := tokens.appNumCur - 1 }.freeToRsvr
          node).1.tokenDynamicNew ≤ ({ tokens with
            appNumCur := tokens.appNumCur - 1 }.freeToRsvr node).1.tokenDynamic := hDebt
      rw [if_pos hCur, if_pos ⟨hCur, hDebt⟩]
      simp only [freeToDynamic, if_pos hDynamic, Option.bind_eq_bind, Option.bind_some,
        Option.pure_def]
      rfl
    · have hDynamic : ¬ ({ tokens with appNumCur := tokens.appNumCur - 1 }.freeToRsvr
          node).1.tokenDynamicNew ≤ ({ tokens with
            appNumCur := tokens.appNumCur - 1 }.freeToRsvr node).1.tokenDynamic := hDebt
      rw [if_pos hCur, if_neg fun h => hDebt h.2]
      simp only [freeToDynamic, if_neg hDynamic, Option.bind_eq_bind, Option.bind_none]
  · rw [if_neg hCur, if_neg fun h => hCur h.1]

theorem letGo_of_offline (h : tokens.offline node = some (tokens', node')) :
    0 < tokens.appNumCur ∧ tokens' = tokens.letGo node := by
  rw [offline_eq] at h
  split at h
  · rename_i hAsserts
    exact ⟨hAsserts.1, (Prod.mk.inj (Option.some.inj h)).1.symm⟩
  · cases h

end TokenGlobal

-- ---------------------------------------------------------------------------
-- Runs of the token counters
-- ---------------------------------------------------------------------------

/-- The calls on a `token_global`. -/
inductive TokenCall where
  | increase (units : ULong)
  | tryDecrease (units : ULong)
  | tryAlloc (cost : ULong)
  | free (cost : ULong)
  | online (node : AppNode)
  | offline (node : AppNode)

/-- The counters, and the apps that are online. -/
structure TokenState where
  tokens : TokenGlobal
  nodes  : List AppNode

namespace TokenCall

/-- A call that returns; `none` is an assertion failing. -/
def apply (s : TokenState) : TokenCall → Option TokenState
  | .increase units => some { s with tokens := s.tokens.increase units }
  | .tryDecrease units => some { s with tokens := (s.tokens.tryDecrease units).1 }
  | .tryAlloc cost => some { s with tokens := (s.tokens.tryAlloc cost).1 }
  | .free cost => some { s with tokens := s.tokens.gfree cost }
  | .online node => (s.tokens.online node).map fun res =>
      ⟨res.1, if res.2.2 = .ok then res.2.1 :: s.nodes else s.nodes⟩
  | .offline node => (s.tokens.offline node).map fun res => ⟨res.1, s.nodes.erase node⟩

/-- Fresh nodes come online, and nodes that are online go. -/
def Legal (s : TokenState) : TokenCall → Prop
  | .online node => node.tokenQuota = 0
  | .offline node => node ∈ s.nodes
  | _ => True

/-- What the call does to `tokenDynamic` and to `tokenDynamicNew`, as numbers. -/
def debtChange (tokens : TokenGlobal) : TokenCall → ℤ × ℤ
  | .increase units => (units.toNat, units.toNat)
  | .tryDecrease units => if tokens.couldDecrease units then (-units.toNat, -units.toNat) else (0, 0)
  | .tryAlloc _ => (0, 0)
  | .free cost =>
      if tokens.tokenDynamicNew < tokens.tokenDynamic then
        (-(ULong.cmin (tokens.tokenDynamic - tokens.tokenDynamicNew) cost).toNat, 0)
      else (0, 0)
  | .online _ => if tokens.checkUpAppNum.2 = .ok then (0, -tokens.shortfall.toNat) else (0, 0)
  | .offline node => ((tokens.repaid node).toNat, 0)

/-- The call leaves `tokenDynamicNew` at least 0 and `tokenDynamic` less than
`2 ^ 64`. -/
def PaysFromDynamic (tokens : TokenGlobal) : TokenCall → Prop
  | .increase units => tokens.tokenDynamic.toNat + units.toNat < 2 ^ 64
  | .tryDecrease units => tokens.couldDecrease units = true → units ≤ tokens.tokenDynamicNew
  | .online _ => tokens.checkUpAppNum.2 = .ok → tokens.shortfall ≤ tokens.tokenDynamicNew
  | .offline node => tokens.tokenDynamic.toNat + (tokens.repaid node).toNat < 2 ^ 64
  | .tryAlloc _ | .free _ => True

end TokenCall

def tokenSystem : System TokenState TokenCall where
  init s := ∃ maxNodeNr minPerNode, s = ⟨.init maxNodeNr minPerNode, []⟩
  step s call s' := call.Legal s ∧ call.apply s = some s'

abbrev TokenTransition := Transition TokenState TokenCall

/-- Only `online` and `offline` count apps and touch the reserve. -/
theorem TokenCall.keeps_apps {s s' : TokenState} {call : TokenCall}
    (hOnline : ∀ node, call ≠ .online node) (hOffline : ∀ node, call ≠ .offline node)
    (h : call.apply s = some s') :
    s'.tokens.appNumCur = s.tokens.appNumCur ∧ s'.tokens.appNumMax = s.tokens.appNumMax ∧
      s'.tokens.appTokenRsvr = s.tokens.appTokenRsvr ∧
      s'.tokens.appMaxTokenRsvr = s.tokens.appMaxTokenRsvr := by
  cases call with
  | online node => exact absurd rfl (hOnline node)
  | offline node => exact absurd rfl (hOffline node)
  | increase units =>
    obtain rfl := Option.some.inj h
    exact ⟨rfl, rfl, rfl, rfl⟩
  | tryDecrease units =>
    obtain rfl := Option.some.inj h
    unfold TokenGlobal.tryDecrease
    split <;> exact ⟨rfl, rfl, rfl, rfl⟩
  | tryAlloc cost =>
    obtain rfl := Option.some.inj h
    exact ⟨rfl, rfl, rfl, rfl⟩
  | free cost =>
    obtain rfl := Option.some.inj h
    unfold TokenGlobal.gfree
    split <;> exact ⟨rfl, rfl, rfl, rfl⟩

/-- The debt is one, `free_to_dynamic` can rely on it, and neither counter has
wrapped around. -/
structure DebtMeaningful (x : TokenTransition) : Prop where
  le      : x.post.tokens.tokenDynamicNew ≤ x.post.tokens.tokenDynamic
  asserts : ∀ node, (x.post.tokens.freeToDynamic node).isSome
  dynamic : (x.post.tokens.tokenDynamic.toNat : ℤ) =
    x.pre.tokens.tokenDynamic.toNat + (x.act.debtChange x.pre.tokens).1
  new     : (x.post.tokens.tokenDynamicNew.toNat : ℤ) =
    x.pre.tokens.tokenDynamicNew.toNat + (x.act.debtChange x.pre.tokens).2

variable {s s' : TokenState} {call : TokenCall}

theorem debtMeaningful_def {x : TokenTransition} : DebtMeaningful x ↔
    x.post.tokens.tokenDynamicNew ≤ x.post.tokens.tokenDynamic ∧
      (x.post.tokens.tokenDynamic.toNat : ℤ) =
        x.pre.tokens.tokenDynamic.toNat + (x.act.debtChange x.pre.tokens).1 ∧
      (x.post.tokens.tokenDynamicNew.toNat : ℤ) =
        x.pre.tokens.tokenDynamicNew.toNat + (x.act.debtChange x.pre.tokens).2 :=
  ⟨fun h => ⟨h.le, h.dynamic, h.new⟩, fun ⟨hLe, hDynamic, hNew⟩ =>
    ⟨hLe, fun node => (x.post.tokens.isSome_freeToDynamic node).mpr hLe, hDynamic, hNew⟩⟩

/-- **One call** from a debt that is one. -/
theorem debt_step_iff (hLe : s.tokens.tokenDynamicNew ≤ s.tokens.tokenDynamic)
    (hStep : tokenSystem.step s call s') :
    DebtMeaningful ⟨s, call, s'⟩ ↔ call.PaysFromDynamic s.tokens := by
  obtain ⟨hLegal, hApply⟩ := hStep
  rw [debtMeaningful_def]
  have hLe' := hLe
  rw [BitVec.le_def] at hLe'
  cases call with
  | increase units =>
    obtain rfl := Option.some.inj hApply
    simp only [TokenCall.debtChange, TokenCall.PaysFromDynamic, TokenGlobal.increase,
      BitVec.le_def, BitVec.toNat_add]
    omega
  | tryDecrease units =>
    obtain rfl := Option.some.inj hApply
    simp only [TokenCall.debtChange, TokenCall.PaysFromDynamic, TokenGlobal.tryDecrease]
    by_cases hCould : s.tokens.couldDecrease units = true
    · simp only [hCould, if_true, forall_const, BitVec.le_def, BitVec.toNat_sub]
      omega
    · simp [hCould, hLe]
  | tryAlloc cost =>
    obtain rfl := Option.some.inj hApply
    simp [TokenCall.debtChange, TokenCall.PaysFromDynamic, TokenGlobal.tryAlloc, hLe]
  | free cost =>
    obtain rfl := Option.some.inj hApply
    simp only [TokenCall.debtChange, TokenCall.PaysFromDynamic, TokenGlobal.gfree]
    split
    · -- no more is paid off than is owed
      have hPaid := ULong.cmin_le_left (s.tokens.tokenDynamic - s.tokens.tokenDynamicNew) cost
      generalize ULong.cmin _ cost = paid at hPaid ⊢
      rw [BitVec.le_def, BitVec.toNat_sub_of_le hLe] at hPaid
      have hFits : paid ≤ s.tokens.tokenDynamic := by
        rw [BitVec.le_def]
        omega
      simp only [BitVec.le_def, BitVec.toNat_sub_of_le hFits, iff_true]
      omega
    · simp [hLe]
  | online node =>
    obtain ⟨⟨tokens', node', err⟩, hOnline, rfl⟩ := Option.map_eq_some_iff.mp hApply
    simp only [TokenCall.debtChange, TokenCall.PaysFromDynamic]
    rcases TokenGlobal.online_cases hOnline with ⟨hNot, -, rfl, -⟩ | ⟨hOk, -, -, hDynamic, hNew⟩
    · simp [hNot, hLe]
    · simp only [hOk, hDynamic, hNew hLegal, if_true, forall_const, BitVec.le_def,
        BitVec.toNat_sub]
      omega
  | offline node =>
    obtain ⟨⟨tokens', node'⟩, hOffline, rfl⟩ := Option.map_eq_some_iff.mp hApply
    obtain ⟨-, rfl⟩ := TokenGlobal.letGo_of_offline hOffline
    simp only [TokenCall.debtChange, TokenCall.PaysFromDynamic, TokenGlobal.letGo, BitVec.le_def,
      BitVec.toNat_add]
    omega

/-- **The debt counter stays meaningful**, in exactly the runs whose calls pay
from what is there. -/
theorem debt_meaningful_iff {s₀ : TokenState} {tr : List TokenTransition}
    (hInit : tokenSystem.init s₀) (hRun : Run tokenSystem s₀ tr s) :
    (∀ x ∈ tr, DebtMeaningful x) ↔ ∀ x ∈ tr, x.act.PaysFromDynamic x.pre.tokens := by
  obtain ⟨maxNodeNr, minPerNode, rfl⟩ := hInit
  refine (hRun.forall_iff (I := fun t => t.tokens.tokenDynamicNew ≤ t.tokens.tokenDynamic)
    (fun t call u hLe hStep => ?_) (BitVec.le_refl _)).1
  exact ⟨debt_step_iff hLe hStep, fun h => h.le⟩

section ThreeApps

/-- A dispatcher that lets apps with a minimum of 10 tokens in, and none yet. -/
def noApps (total free : ULong) : TokenState :=
  ⟨{ (TokenGlobal.init 1 10).increase total with tokenFree := free }, []⟩

def appWithoutTokens (ptr : AppNodePtr) : AppNode := .init ptr 10 0

/-- The state after an app has come online on credit. -/
def TokenState.owe (s : TokenState) (ptr : AppNodePtr) : TokenState where
  tokens := { s.tokens with
    tokenDynamicNew := s.tokens.tokenDynamicNew - 10
    appNumCur       := s.tokens.appNumCur + 1 }
  nodes  := { appWithoutTokens ptr with tokenQuota := 10, tokenQuotaNew := 10 } :: s.nodes

/-- A pool of 20 tokens is spent, and an app has come online. -/
def oneAppRun : List TokenTransition :=
  [⟨⟨.init 1 10, []⟩, .increase 20, noApps 20 20⟩, ⟨noApps 20 20, .tryAlloc 20, noApps 20 0⟩,
    ⟨noApps 20 0, .online (appWithoutTokens 0), (noApps 20 0).owe 0⟩]

theorem run_oneAppRun : Run tokenSystem ⟨.init 1 10, []⟩ oneAppRun ((noApps 20 0).owe 0) := by
  have hIncrease : tokenSystem.step ⟨.init 1 10, []⟩ (.increase 20) (noApps 20 20) := ⟨trivial, rfl⟩
  have hAlloc : tokenSystem.step (noApps 20 20) (.tryAlloc 20) (noApps 20 0) := ⟨trivial, rfl⟩
  have hOnline : tokenSystem.step (noApps 20 0) (.online (appWithoutTokens 0))
      ((noApps 20 0).owe 0) := ⟨rfl, rfl⟩
  exact ((Run.nil.snoc hIncrease).snoc hAlloc).snoc hOnline

/-- The first app owes 10 tokens. -/
theorem debt_meaningful_one_app :
    DebtMeaningful ⟨noApps 20 0, .online (appWithoutTokens 0), (noApps 20 0).owe 0⟩ := by
  refine (debt_meaningful_iff ⟨1, 10, rfl⟩ run_oneAppRun).mpr ?_ _
    (List.mem_cons_of_mem _ (List.mem_cons_of_mem _ (List.mem_singleton_self _)))
  simp only [oneAppRun, List.forall_mem_cons, TokenCall.PaysFromDynamic]
  exact ⟨by decide, trivial, by decide, by simp⟩

/-- The third app owes what there is not: the pool has 20 tokens, none of them
free, and still no app counts as having any. -/
theorem third_app_wraps_debt :
    ¬ ∀ (s₀ s : TokenState) (tr : List TokenTransition),
      tokenSystem.init s₀ → Run tokenSystem s₀ tr s → ∀ x ∈ tr, DebtMeaningful x := by
  intro hAlways
  have hSecond : tokenSystem.step ((noApps 20 0).owe 0) (.online (appWithoutTokens 1))
      (((noApps 20 0).owe 0).owe 1) := ⟨rfl, rfl⟩
  have hThird : tokenSystem.step (((noApps 20 0).owe 0).owe 1) (.online (appWithoutTokens 2))
      ((((noApps 20 0).owe 0).owe 1).owe 2) := ⟨rfl, rfl⟩
  have hLe := (hAlways _ _ _ ⟨1, 10, rfl⟩ ((run_oneAppRun.snoc hSecond).snoc hThird) _
    (List.mem_append_right _ (List.mem_singleton_self _))).le
  revert hLe
  decide

end ThreeApps

end DatastorQos
