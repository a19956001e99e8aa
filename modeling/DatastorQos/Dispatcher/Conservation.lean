import DatastorQos.Dispatcher.DispRuns
import DatastorQos.Dispatcher.Retargeting
import DatastorQos.Lib.Apportion

/-!
# datastor_qos — the dispatcher's tokens are conserved

* `DispManager.Conserved` — what is free, in reserve or with an app is what
  there is, and the recorded debt;
* `tokens_conserved` — so it is in every state of every run whose sections keep
  off the operations that move tokens on one side only (`DispSection.Keeps`);
* `reduce_breaks_conservation` — a pool that shrinks by more than is free is
  one that does.
-/

namespace DatastorQos

open Apportion Runs TokenUpdateCtx

variable {Id : Type} {ops : IdOps Id}

/-- The quota of the node at an address. -/
def AppNodes.quotaOf (s : AppNodes) (ptr : AppNodePtr) : ULong :=
  match s.node? ptr with
  | some node => node.tokenQuota
  | none => 0

namespace DispManager

/-- What the online apps have. -/
def granted (m : DispManager ops) : ℕ := total (fun item => m.apps.quotaOf item.pri) m.tab.items

/-- The tokens are somewhere, and every token too many is on record. -/
def Conserved (m : DispManager ops) : Prop :=
  (m.tokens.tokenFree.toNat : ℤ) + m.tokens.appTokenRsvr.toNat + m.granted =
    m.tokens.tokenTotal.toNat + ((m.tokens.tokenDynamic.toNat : ℤ) - m.tokens.tokenDynamicNew.toNat)

end DispManager

/-- The section moves tokens, if any, from one place to another. -/
def DispSection.Keeps (m : DispManager ops) : DispSection Id → Prop
  -- the total does not overflow
  | .increase cost => m.tokens.tokenTotal.toNat + cost.toNat < 2 ^ 64
  -- what is taken from the pool is there
  | .reduce cost => m.tokens.couldDecrease cost = true → cost ≤ m.tokens.tokenFree
  -- the debt for a new app does not exceed what may be owed
  | .online id => m.tab.find id = none → m.tokens.checkUpAppNum.2 = .ok →
      m.tokens.shortfall ≤ m.tokens.tokenDynamicNew
  -- a confirmation does not raise the quota
  | .rcvd id a2d => ∀ ptr ∈ m.tab.find id, ∀ node ∈ m.apps.node? ptr, a2d.version = node.version →
      ULong.cmin a2d.tokenInUse node.tokenQuotaNew ≤ node.tokenQuota
  -- no node waits, or there is nothing to give it
  | .clearWaitIncrease => m.apps.lheadWaitIncrease.head = [] ∨ m.tokens.tokenFree = 0
  | _ => True

-- ---------------------------------------------------------------------------
-- Quotas
-- ---------------------------------------------------------------------------

/-- No node has more or less than it had. -/
def SameQuotas (s s' : AppNodes) : Prop := ∀ ptr, s'.quotaOf ptr = s.quotaOf ptr

namespace SameQuotas

variable {s s₁ s' : AppNodes} {ptr : AppNodePtr} {node node' : AppNode}

theorem refl (s : AppNodes) : SameQuotas s s := fun _ => rfl

theorem of_node? (h : ∀ x, s'.node? x = if x = ptr then some node' else s.node? x)
    (hNode : s.node? ptr = some node) (hQuota : node'.tokenQuota = node.tokenQuota) :
    SameQuotas s s' := by
  intro x
  unfold AppNodes.quotaOf
  by_cases hx : x = ptr
  · rw [h, if_pos hx, hx, hNode]
    exact hQuota
  · rw [h, if_neg hx]

theorem setNode (node' : AppNode) (hNode : s.node? ptr = some node) (hPtr : node'.ptr = node.ptr)
    (hQuota : node'.tokenQuota = node.tokenQuota) : SameQuotas s (s.setNode node') := by
  have hAt : node'.ptr = ptr := hPtr.trans (AppNodes.ptr_of_node? hNode)
  subst hAt
  exact of_node? (fun x => AppNodes.node?_setNode node' (Option.isSome_of_eq_some hNode))
    hNode hQuota

theorem of_retargeted (h : Retargeted s s') : SameQuotas s s' := by
  intro x
  unfold AppNodes.quotaOf
  cases hNode : s.node? x with
  | none =>
    have hNone := h x
    rw [hNode, Option.map_none, Option.map_eq_none_iff] at hNone
    rw [hNone]
  | some node =>
    obtain ⟨node', hNode', hSame⟩ := h.node? hNode
    rw [hNode']
    exact AppNode.tokenQuota_of_untargeted hSame

end SameQuotas

-- ---------------------------------------------------------------------------
-- The counters
-- ---------------------------------------------------------------------------

namespace TokenGlobal

/-- With that much in the hands of the apps: nothing is in reserve, and what the
pool has not given is owed. -/
structure Level (tokens : TokenGlobal) (granted : ℕ) : Prop where
  rsvr    : tokens.appTokenRsvr = 0
  dynamic : tokens.tokenDynamic = tokens.tokenTotal
  free_le : tokens.tokenFree.toNat ≤ tokens.tokenDynamicNew.toNat
  owed_le : tokens.tokenDynamicNew.toNat ≤ tokens.tokenTotal.toNat
  level   : tokens.tokenFree.toNat + granted + tokens.tokenDynamicNew.toNat =
    2 * tokens.tokenTotal.toNat

variable {tokens tokens' : TokenGlobal} {granted : ℕ} {cost : ULong}

theorem Level.increase (h : tokens.Level granted)
    (hTotal : tokens.tokenTotal.toNat + cost.toNat < 2 ^ 64) :
    (tokens.increase cost).Level granted := by
  obtain ⟨hRsvr, hDynamic, hFree, hOwed, hLevel⟩ := h
  have hSum : ∀ a : ULong, a.toNat ≤ tokens.tokenTotal.toNat →
      (a + cost).toNat = a.toNat + cost.toNat := fun a ha => by
    rw [BitVec.toNat_add, Nat.mod_eq_of_lt (by omega)]
  have hFreeSum := hSum _ (Nat.le_trans hFree hOwed)
  have hOwedSum := hSum _ hOwed
  have hTotalSum := hSum _ (Nat.le_refl _)
  unfold TokenGlobal.increase
  constructor <;> simp only [hFreeSum, hOwedSum, hTotalSum]
  · exact hRsvr
  · rw [hDynamic]
  · omega
  · omega
  · omega

/-- Tokens that are there can go. -/
theorem Level.tryDecrease (h : tokens.Level granted)
    (hFits : tokens.couldDecrease cost = true → cost ≤ tokens.tokenFree) :
    (tokens.tryDecrease cost).1.Level granted := by
  obtain ⟨hRsvr, hDynamic, hFree, hOwed, hLevel⟩ := h
  unfold TokenGlobal.tryDecrease
  split
  · rename_i hCould
    have hCost := BitVec.le_def.mp (hFits hCould)
    have hTaken : ULong.cmin cost tokens.tokenFree = cost := by
      refine BitVec.eq_of_toNat_eq ?_
      rw [ULong.toNat_cmin]
      exact Nat.min_eq_left hCost
    have hDiff : ∀ a : ULong, cost.toNat ≤ a.toNat → (a - cost).toNat = a.toNat - cost.toNat :=
      fun a ha => BitVec.toNat_sub_of_le (BitVec.le_def.mpr ha)
    have hFreeDiff := hDiff _ hCost
    have hOwedDiff := hDiff tokens.tokenDynamicNew (by omega)
    have hTotalDiff := hDiff tokens.tokenTotal (by omega)
    constructor <;> simp only [hTaken, hFreeDiff, hOwedDiff, hTotalDiff]
    · exact hRsvr
    · rw [hDynamic]
    · omega
    · omega
    · omega
  · exact ⟨hRsvr, hDynamic, hFree, hOwed, hLevel⟩

variable {node node' : AppNode}

/-- With nothing in reserve, nothing comes from it. -/
theorem Level.allocFromRsvr (h : tokens.Level (granted + node.tokenQuota.toNat))
    (hAlloc : tokens.allocFromRsvr node = some (tokens', node')) :
    tokens' = tokens ∧ node' = { node with tokenQuotaNew := node.tokenQuota } := by
  unfold TokenGlobal.allocFromRsvr at hAlloc
  split at hAlloc
  · simp only [Option.some.injEq, Prod.mk.injEq, h.rsvr, ULong.zero_cmin] at hAlloc
    obtain ⟨rfl, rfl⟩ := hAlloc
    have hRsvr := h.rsvr
    obtain ⟨⟩ := tokens
    simp_all
  · cases hAlloc

/-- The pool gives what it can. -/
theorem Level.allocFromFree (h : tokens.Level (granted + node.tokenQuota.toNat))
    (hAlloc : tokens.allocFromFree node = some (tokens', node')) :
    tokens'.Level (granted + node'.tokenQuota.toNat) ∧ node'.ptr = node.ptr ∧
      tokens'.tokenDynamicNew = tokens.tokenDynamicNew ∧
      tokens'.defaultTokenMin = tokens.defaultTokenMin ∧
      node'.tokenQuota = node.tokenQuota +
        ULong.cmin tokens.tokenFree (tokens.defaultTokenMin - node.tokenQuota) ∧
      (node'.tokenQuota = tokens.defaultTokenMin ∨ tokens'.tokenFree = 0) := by
  obtain ⟨hRsvr, hDynamic, hFree, hNew, hLevel⟩ := h
  unfold TokenGlobal.allocFromFree at hAlloc
  split at hAlloc
  · rename_i hQuota
    simp only [Option.some.injEq, Prod.mk.injEq] at hAlloc
    obtain ⟨rfl, rfl⟩ := hAlloc
    have hTaken := ULong.toNat_cmin tokens.tokenFree (tokens.defaultTokenMin - node.tokenQuota)
    rw [BitVec.toNat_sub_of_le hQuota] at hTaken
    have hQuotaNat := BitVec.le_def.mp hQuota
    have hMin := tokens.defaultTokenMin.isLt
    generalize ULong.cmin tokens.tokenFree (tokens.defaultTokenMin - node.tokenQuota) = taken at *
    have hFreeDiff : (tokens.tokenFree - taken).toNat = tokens.tokenFree.toNat - taken.toNat :=
      BitVec.toNat_sub_of_le (BitVec.le_def.mpr (by omega))
    have hQuotaSum : (node.tokenQuota + taken).toNat = node.tokenQuota.toNat + taken.toNat := by
      rw [BitVec.toNat_add, Nat.mod_eq_of_lt (by omega)]
    refine ⟨?_, rfl, rfl, rfl, rfl, ?_⟩
    · constructor <;> simp only [hFreeDiff, hQuotaSum]
      · exact hRsvr
      · exact hDynamic
      · omega
      · exact hNew
      · omega
    · rcases Nat.le_total tokens.tokenFree.toNat
        (tokens.defaultTokenMin.toNat - node.tokenQuota.toNat) with hLe | hLe
      · exact Or.inr (BitVec.eq_of_toNat_eq (by rw [hFreeDiff]; simp; omega))
      · exact Or.inl (BitVec.eq_of_toNat_eq (by rw [hQuotaSum]; omega))
  · cases hAlloc

/-- The rest is owed. -/
theorem Level.allocFromDynamic (h : tokens.Level (granted + node.tokenQuota.toNat))
    (hOwed : tokens.defaultTokenMin - node.tokenQuota ≤ tokens.tokenDynamicNew)
    (hSpent : node.tokenQuota = tokens.defaultTokenMin ∨ tokens.tokenFree = 0)
    (hAlloc : tokens.allocFromDynamic node = some (tokens', node')) :
    tokens'.Level (granted + node'.tokenQuota.toNat) ∧ node'.ptr = node.ptr := by
  obtain ⟨hRsvr, hDynamic, hFree, hNew, hLevel⟩ := h
  unfold TokenGlobal.allocFromDynamic at hAlloc
  split at hAlloc
  · rename_i hQuota
    simp only [Option.some.injEq, Prod.mk.injEq] at hAlloc
    obtain ⟨rfl, rfl⟩ := hAlloc
    have hTaken := BitVec.toNat_sub_of_le hQuota
    have hQuotaNat := BitVec.le_def.mp hQuota
    have hMin := tokens.defaultTokenMin.isLt
    have hNewDiff := BitVec.toNat_sub_of_le hOwed
    have hOwedNat := BitVec.le_def.mp hOwed
    have hSpentNat : node.tokenQuota.toNat = tokens.defaultTokenMin.toNat ∨
        tokens.tokenFree.toNat = 0 :=
      hSpent.imp (congrArg BitVec.toNat) fun hZero => by rw [hZero]; rfl
    generalize tokens.defaultTokenMin - node.tokenQuota = taken at *
    have hQuotaSum : (node.tokenQuota + taken).toNat = node.tokenQuota.toNat + taken.toNat := by
      rw [BitVec.toNat_add, Nat.mod_eq_of_lt (by omega)]
    refine ⟨?_, rfl⟩
    constructor <;> simp only [hNewDiff, hQuotaSum]
    · exact hRsvr
    · exact hDynamic
    · omega
    · omega
    · omega
  · cases hAlloc

theorem tryAlloc_empty (h : tokens.tokenFree = 0) : tokens.tryAlloc cost = (tokens, 0) := by
  obtain ⟨⟩ := tokens
  simp only at h
  subst h
  simp only [tryAlloc, ULong.zero_cmin, sub_zero]

/-- A new app that is let in has tokens from the pool, or they are owed. -/
theorem Level.online {err : QosError} (h : tokens.Level granted) (hFresh : node.tokenQuota = 0)
    (hOwed : tokens.checkUpAppNum.2 = .ok → tokens.shortfall ≤ tokens.tokenDynamicNew)
    (hOnline : tokens.online node = some (tokens', node', err)) :
    node'.ptr = node.ptr ∧ (err = .ok → tokens'.Level (granted + node'.tokenQuota.toNat)) ∧
      (err ≠ .ok → tokens' = tokens) := by
  unfold TokenGlobal.online at hOnline
  rcases tokens.checkUpAppNum_cases with hCheck | hCheck <;> simp only [hCheck] at hOnline hOwed
  · simp only [Option.some.injEq, Prod.mk.injEq] at hOnline
    obtain ⟨rfl, rfl, rfl⟩ := hOnline
    exact ⟨rfl, by simp, fun _ => rfl⟩
  · obtain ⟨⟨tokens₁, node₁⟩, hFromRsvr, hOnline⟩ := Option.bind_eq_some_iff.mp hOnline
    obtain ⟨⟨tokens₂, node₂⟩, hFromFree, hOnline⟩ := Option.bind_eq_some_iff.mp hOnline
    obtain ⟨⟨tokens₃, node₃⟩, hFromDynamic, hOnline⟩ := Option.bind_eq_some_iff.mp hOnline
    simp only [Option.pure_def, Option.some.injEq, Prod.mk.injEq] at hOnline
    obtain ⟨rfl, rfl, rfl⟩ := hOnline
    have hCounted : { tokens with appNumCur := tokens.appNumCur + 1 }.Level
        (granted + node.tokenQuota.toNat) := by
      rw [hFresh]
      exact ⟨h.rsvr, h.dynamic, h.free_le, h.owed_le, h.level⟩
    obtain ⟨rfl, rfl⟩ := hCounted.allocFromRsvr hFromRsvr
    obtain ⟨hLevel, hPtr, hNew, hMin, hQuota, hSpent⟩ := hCounted.allocFromFree hFromFree
    have hShortfall : tokens₂.defaultTokenMin - node₂.tokenQuota = tokens.shortfall := by
      rw [hMin, hQuota, hFresh]
      unfold shortfall
      rw [h.rsvr, ULong.zero_cmin, zero_add, sub_zero]
    obtain ⟨hLevel', hPtr'⟩ := hLevel.allocFromDynamic
      (by rw [hShortfall, hNew]; exact hOwed trivial) (by rw [hMin]; exact hSpent) hFromDynamic
    exact ⟨hPtr'.trans hPtr, fun _ => hLevel', by simp⟩

theorem Level.conserved (h : tokens.Level granted) :
    (tokens.tokenFree.toNat : ℤ) + tokens.appTokenRsvr.toNat + granted =
      tokens.tokenTotal.toNat + ((tokens.tokenDynamic.toNat : ℤ) - tokens.tokenDynamicNew.toNat) := by
  have hLevel := h.level
  rw [h.rsvr, h.dynamic, show (0 : ULong).toNat = 0 from rfl]
  omega

end TokenGlobal

-- ---------------------------------------------------------------------------
-- Sections
-- ---------------------------------------------------------------------------

namespace DispManager

variable {m m' : DispManager ops} {id : Id}

/-- The counters are level, and addresses are handed out once. -/
structure Good (m : DispManager ops) : Prop where
  level : m.tokens.Level m.granted
  older : ∀ item ∈ m.tab.items, item.pri < m.nextNode

theorem Good.init (h : (dispSystem ops).init m) : m.Good := by
  have hItems : m.tab.items = [] := by
    obtain ⟨_, _, _, _, hPos, rfl⟩ := h
    exact HashTable.items_alloc (h := hPos)
  have hTokens : ∃ maxNodeNr minPerNode, m.tokens = .init maxNodeNr minPerNode := by
    obtain ⟨_, maxNodeNum, _, minRsNum, _, rfl⟩ := h
    exact ⟨maxNodeNum, minRsNum, rfl⟩
  obtain ⟨maxNodeNr, minPerNode, hTokens⟩ := hTokens
  refine ⟨?_, by simp [hItems]⟩
  rw [hTokens, granted, hItems, total_nil]
  constructor <;> simp [TokenGlobal.init]

/-- What leaves the table and the quotas as they are. -/
theorem Good.congr (hg : m.Good) (hTokens : m.tokens.Level m.granted → m'.tokens.Level m.granted)
    (hTab : m'.tab = m.tab) (hNext : m.nextNode ≤ m'.nextNode)
    (hQuotas : SameQuotas m.apps m'.apps) : m'.Good := by
  have hGranted : m'.granted = m.granted := by
    unfold granted
    rw [hTab]
    exact total_congr fun item _ => hQuotas item.pri
  refine ⟨hGranted ▸ hTokens hg.level, ?_⟩
  rw [hTab]
  exact fun item hItem => Nat.lt_of_lt_of_le (hg.older item hItem) hNext

theorem Good.updateNodesTokenQuotaNew (hg : m.Good) (h : m.updateNodesTokenQuotaNew = some m') :
    m'.Good := by
  obtain ⟨apps, updateCtx, rfl, hRetargeted⟩ := retargeted h
  exact hg.congr (fun h => h) rfl (Nat.le_refl _) (.of_retargeted hRetargeted)

theorem Good.execute (hg : m.Good) (h : m.execute = some m') : m'.Good := by
  unfold DispManager.execute at h
  split at h
  · exact Option.some.inj h ▸ hg
  · have hMarked : { m with isExe := true }.Good :=
      hg.congr (fun h => h) rfl (Nat.le_refl _) (.refl _)
    exact hMarked.updateNodesTokenQuotaNew h

theorem globalTryAlloc_empty (hFree : m.tokens.tokenFree = 0) (cost : ULong) :
    m.globalTryAlloc cost = (m, 0) := by
  unfold globalTryAlloc
  rw [TokenGlobal.tryAlloc_empty hFree]

/-- A node that waits takes what there is, which is nothing. -/
theorem tryClearWaitIncrease_idle {fuel : Nat}
    (hKeeps : DispSection.Keeps m (.clearWaitIncrease : DispSection Id))
    (h : m.tryClearWaitIncrease fuel = some m') : m' = m := by
  induction fuel with
  | zero => cases h
  | succ fuel ih =>
    unfold tryClearWaitIncrease at h
    split at h
    · exact (Option.some.inj h).symm
    · rename_i ptr hFirst
      obtain ⟨node, -, h⟩ := Option.bind_eq_some_iff.mp h
      have hFree : m.tokens.tokenFree = 0 := by
        refine hKeeps.resolve_left fun hNil => ?_
        rw [WaitIncreaseList.isFirstExist, hNil] at hFirst
        cases hFirst
      -- a node that lacks nothing is visited again and again
      unfold AppNode.updateTokenQuota at h
      simp only [globalTryAlloc_empty hFree] at h
      by_cases hLess : node.tokenQuota < node.tokenQuotaNew
      · have hNothing : ¬ (0 : ULong) = node.tokenQuotaNew - node.tokenQuota := by bv_omega
        simp only [if_pos hLess, if_neg hNothing, Option.some.injEq] at h
        exact h.symm
      · simp only [if_neg hLess] at h
        exact ih h

/-- A confirmation that does not raise the quota frees nothing. -/
theorem Good.rcvdSection {a2d : App2Dispatch} (hg : m.Good)
    (hKeeps : DispSection.Keeps m (.rcvd id a2d)) (h : m.rcvdSection id a2d = some m') :
    m'.Good := by
  obtain ⟨⟨m₁, found⟩, hRcvd, h⟩ := Option.bind_eq_some_iff.mp h
  unfold nodeRcvd at hRcvd
  split at hRcvd
  · simp only [Option.some.injEq, Prod.mk.injEq] at hRcvd
    obtain ⟨rfl, rfl⟩ := hRcvd
    exact Option.some.inj h ▸ hg
  · rename_i ptr hFind
    obtain ⟨node, hNode, hRcvd⟩ := Option.bind_eq_some_iff.mp hRcvd
    obtain ⟨press, hMessage⟩ := AppNode.rcvd_keeps (hKeeps ptr hFind node hNode)
    rw [hMessage] at hRcvd
    simp only [Option.pure_def, Option.some.injEq, Prod.mk.injEq] at hRcvd
    obtain ⟨rfl, rfl⟩ := hRcvd
    simp only [ne_eq, not_true_eq_false, if_false, Option.some.injEq] at h
    subst h
    exact hg.congr (fun hLevel => hLevel) rfl (Nat.le_refl _)
      (SameQuotas.setNode { node with press := press } hNode rfl rfl)

/-- An app that comes online has its quota in addition to what is granted. -/
theorem granted_insert {node : AppNode}
    (hItems : m'.tab.items.Perm (⟨id, node.ptr⟩ :: m.tab.items))
    (hApps : m'.apps = { m.apps with nodes := node :: m.apps.nodes })
    (hNew : ∀ item ∈ m.tab.items, item.pri ≠ node.ptr) :
    m'.granted = m.granted + node.tokenQuota.toNat := by
  have hQuota : ∀ x, m'.apps.quotaOf x = if x = node.ptr then node.tokenQuota
      else m.apps.quotaOf x := by
    intro x
    unfold AppNodes.quotaOf
    rw [hApps, AppNodes.node?_cons]
    by_cases hx : x = node.ptr
    · rw [if_pos hx, if_pos hx]
    · rw [if_neg hx, if_neg hx]
  unfold granted
  rw [total_perm _ hItems, total_cons, hQuota, if_pos rfl, Nat.add_comm]
  refine congrArg (· + node.tokenQuota.toNat) (total_congr fun item hItem => ?_)
  rw [hQuota, if_neg (hNew item hItem)]

theorem Good.onlineSection {done : Bool} (hg : m.Good) (hKeeps : DispSection.Keeps m (.online id))
    (h : m.onlineSection id = some (m', done)) : m'.Good := by
  unfold DispManager.onlineSection at h
  split at h
  · simp only [Option.some.injEq, Prod.mk.injEq] at h
    exact h.1 ▸ hg
  · rename_i cache hCache
    simp only at h
    split at h
    · simp only [Option.some.injEq, Prod.mk.injEq] at h
      obtain ⟨rfl, -⟩ := h
      exact hg.congr (fun hLevel => hLevel) rfl (Nat.le_succ _) (.refl _)
    · rename_i hFind
      obtain ⟨⟨tokens, node, err⟩, hOnline, h⟩ := Option.bind_eq_some_iff.mp h
      obtain ⟨hPtr, hOk, hErr⟩ := hg.level.online rfl (hKeeps hFind) hOnline
      simp only at h
      split at h
      · rename_i hErrOk
        obtain ⟨⟨tab, tabErr⟩, hInsert, h⟩ := Option.bind_eq_some_iff.mp h
        obtain rfl := HashTable.insert_new hFind hInsert
        simp only [if_true, Option.pure_def, Option.some.injEq, Prod.mk.injEq] at h
        obtain ⟨hm, -⟩ := h
        have hItems : m'.tab.items.Perm (⟨id, node.ptr⟩ :: m.tab.items) := by
          rw [← hm]
          exact HashTable.items_insert hInsert
        have hNew : node.ptr = m.nextNode := hPtr
        have hNext : m'.nextNode = m.nextNode + 1 := by rw [← hm]
        have hGranted := granted_insert hItems (by rw [← hm]) fun item hItem =>
          hNew ▸ Nat.ne_of_lt (hg.older item hItem)
        refine ⟨?_, fun item hItem => ?_⟩
        · rw [hGranted, ← hm]
          exact hOk hErrOk
        · rw [hNext]
          rcases List.mem_cons.mp (hItems.mem_iff.mp hItem) with rfl | hItem
          · exact hNew ▸ Nat.lt_succ_self _
          · exact Nat.lt_succ_of_lt (hg.older item hItem)
      · rename_i hErrOk
        simp only [Option.pure_def, Option.some.injEq, Prod.mk.injEq] at h
        obtain ⟨rfl, -⟩ := h
        exact hg.congr (fun hLevel => hErr hErrOk ▸ hLevel) rfl (Nat.le_succ _) (.refl _)

/-- One section. -/
theorem Good.step {a : DispSection Id} (hg : m.Good) (hKeeps : a.Keeps m)
    (h : m.SectionStep a m') : m'.Good := by
  cases a with
  | increase cost =>
    obtain rfl := h
    exact hg.congr (fun hLevel => hLevel.increase hKeeps) rfl (Nat.le_refl _) (.refl _)
  | reduce cost =>
    obtain rfl := h
    exact hg.congr (fun hLevel => hLevel.tryDecrease hKeeps) rfl (Nat.le_refl _) (.refl _)
  | online id =>
    obtain ⟨done, h⟩ := h
    exact hg.onlineSection hKeeps h
  | offline id =>
    replace h : m.nodeOffline id = some m' := h
    unfold nodeOffline at h
    split at h
    · cases h
    · exact Option.some.inj h ▸ hg
  | rcvd id a2d => exact hg.rcvdSection hKeeps h
  | countClear =>
    obtain rfl := h
    exact hg.congr (fun hLevel => hLevel) rfl (Nat.le_refl _) (.refl _)
  | countTest =>
    obtain rfl := h
    exact hg.congr (fun hLevel => hLevel) rfl (Nat.le_refl _) (.refl _)
  | execute => exact hg.execute h
  | rebalance => exact hg.updateNodesTokenQuotaNew h
  | clearWaitIncrease =>
    obtain ⟨fuel, h⟩ := h
    exact tryClearWaitIncrease_idle hKeeps h ▸ hg

end DispManager

/-- **Conservation.** Where every section moves its tokens from one place to
another, every state reached accounts for all of them. -/
theorem tokens_conserved {m₀ m : DispManager ops} {tr : List (DispTransition ops)}
    (hInit : (dispSystem ops).init m₀) (hRun : Run (dispSystem ops) m₀ tr m)
    (hKeeps : ∀ x ∈ tr, x.act.Keeps x.pre) : m.Conserved := by
  have hGood : m.Good := by
    induction hRun with
    | nil => exact .init hInit
    | snoc _ hStep ih =>
      have hBefore := ih fun x hx => hKeeps x (List.mem_append_left _ hx)
      exact hBefore.step (hKeeps _ (List.mem_append_right _ (List.mem_singleton_self _))) hStep
  exact hGood.level.conserved

section OneApp

/-- A dispatcher for one app, with a guarantee of 10 tokens. -/
def freshDispatcher : DispManager IdOps.nat := .init IdOps.nat 2 1 5 10 Nat.two_pos

theorem freshDispatcher_initial : (dispSystem IdOps.nat).init freshDispatcher :=
  ⟨2, 1, 5, 10, Nat.two_pos, rfl⟩

def withTokens : DispManager IdOps.nat := freshDispatcher.increaseSection 100

def withOneApp : DispManager IdOps.nat := ((withTokens.onlineSection 1).get (by decide)).1

/-- The app has 10 tokens, 40 of the other 90 go. -/
theorem tokens_conserved_one_app : ((withOneApp.reduceSection 40).1).granted = 10 ∧
    ((withOneApp.reduceSection 40).1).Conserved := by
  have hIncrease : (dispSystem IdOps.nat).step freshDispatcher (.increase 100) withTokens := rfl
  have hOnline : (dispSystem IdOps.nat).step withTokens (.online 1) withOneApp :=
    ⟨true, (Option.some_get (by decide)).symm⟩
  have hReduce : (dispSystem IdOps.nat).step withOneApp (.reduce 40)
    (withOneApp.reduceSection 40).1 := rfl
  refine ⟨by decide, tokens_conserved freshDispatcher_initial
    (((Run.nil.snoc hIncrease).snoc hOnline).snoc hReduce) ?_⟩
  refine forall_snoc (forall_snoc (forall_snoc (by simp) ?_) ?_) ?_
  · exact show freshDispatcher.tokens.tokenTotal.toNat + (100 : ULong).toNat < 2 ^ 64 by decide
  · exact fun _ _ => by decide
  · exact fun _ => by decide

def afterIncrease : DispManager IdOps.nat :=
  freshDispatcher.after (.resourceIncrease 100) 1 (by decide)

def afterOnline : DispManager IdOps.nat := afterIncrease.after (.nodeOnline 1) 1 (by decide)

/-- 90 tokens are free. -/
def afterReduce : DispManager IdOps.nat := afterOnline.after (.resourceReduce 95) 1 (by decide)

/-- A pool of 5 tokens stays behind, and an app that has 10. -/
theorem reduce_breaks_conservation :
    ¬ ∀ (m₀ m : DispManager IdOps.nat) (tr : List (Transition (DispManager IdOps.nat) (DispCall Nat))),
      (dispCallSystem IdOps.nat).init m₀ → Run (dispCallSystem IdOps.nat) m₀ tr m →
      (∀ x ∈ tr, ∀ cost, x.act = .resourceIncrease cost →
        x.pre.tokens.tokenTotal.toNat + cost.toNat < 2 ^ 64) →
      m.Conserved := by
  intro hAlways
  have hIncrease := dispCallSystem_step freshDispatcher (.resourceIncrease 100) 1 (by decide)
  have hOnline := dispCallSystem_step afterIncrease (.nodeOnline 1) 1 (by decide)
  have hReduce := dispCallSystem_step afterOnline (.resourceReduce 95) 1 (by decide)
  have hConserved := hAlways _ afterReduce _ freshDispatcher_initial
    (((Run.nil.snoc hIncrease).snoc hOnline).snoc hReduce) ?_
  · revert hConserved
    unfold DispManager.Conserved
    decide
  · refine forall_snoc (forall_snoc (forall_snoc (by simp) ?_) ?_) ?_
    · intro cost hCost
      cases hCost
      decide
    · intro cost hCost
      cases hCost
    · intro cost hCost
      cases hCost

end OneApp

end DatastorQos
