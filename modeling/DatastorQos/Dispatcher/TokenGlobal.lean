import DatastorQos.Dispatcher.AppNode

/-!
# token_global — the tokens of a dispatcher

The model of `sysqos_token_global.c`. The dispatcher's tokens are free, kept in
reserve for new apps, or with the apps. Tokens that an app was guaranteed but
that are not there are a debt: `tokenDynamicNew` falls behind `tokenDynamic`.
-/

namespace DatastorQos

/-- `token_global_t`. -/
structure TokenGlobal where
  defaultTokenMin : ULong
  tokenTotal      : ULong
  tokenFree       : ULong
  tokenUsedStatic : ULong
  tokenDynamic    : ULong
  tokenDynamicNew : ULong
  appTokenRsvr    : ULong
  appNumMax       : ULong
  appNumCur       : ULong
  appMaxTokenRsvr : ULong
  deriving DecidableEq, Repr

namespace TokenGlobal

/-- `token_global_init`. -/
def init (maxNodeNr minPerNode : ULong) : TokenGlobal where
  defaultTokenMin := minPerNode
  tokenTotal      := 0
  tokenFree       := 0
  tokenUsedStatic := 0
  tokenDynamic    := 0
  tokenDynamicNew := 0
  appTokenRsvr    := 0
  appNumMax       := maxNodeNr
  appNumCur       := 0
  appMaxTokenRsvr := 0

/-- `set_max_rsvr`. -/
def setMaxRsvr (tokens : TokenGlobal) (appMaxRsvr : ULong) : TokenGlobal :=
  { tokens with
    appMaxTokenRsvr := appMaxRsvr
    appTokenRsvr    := if tokens.appTokenRsvr > appMaxRsvr then appMaxRsvr else tokens.appTokenRsvr }

/-- `check_up_app_num`. -/
def checkUpAppNum (tokens : TokenGlobal) : TokenGlobal × QosError :=
  if tokens.appNumCur + 1 < tokens.appNumMax ∨
      tokens.tokenTotal < tokens.tokenUsedStatic + tokens.defaultTokenMin then
    (tokens, .tooManyNodes)
  else
    ({ tokens with appNumCur := tokens.appNumCur + 1 }, .ok)

/-- `alloc_from_rsvr`; like its two siblings it asserts that the node has no
more than its minimum. -/
def allocFromRsvr (tokens : TokenGlobal) (node : AppNode) : Option (TokenGlobal × AppNode) :=
  if node.tokenQuota ≤ tokens.defaultTokenMin then
    let thisToken := ULong.cmin tokens.appTokenRsvr (tokens.defaultTokenMin - node.tokenQuota)
    some ({ tokens with
        appTokenRsvr    := tokens.appTokenRsvr - thisToken
        tokenUsedStatic := tokens.tokenUsedStatic + thisToken },
      { node with
        tokenQuota    := node.tokenQuota + thisToken
        tokenQuotaNew := node.tokenQuota + thisToken })
  else none

/-- `alloc_from_free`. -/
def allocFromFree (tokens : TokenGlobal) (node : AppNode) : Option (TokenGlobal × AppNode) :=
  if node.tokenQuota ≤ tokens.defaultTokenMin then
    let thisToken := ULong.cmin tokens.tokenFree (tokens.defaultTokenMin - node.tokenQuota)
    some ({ tokens with
        tokenFree       := tokens.tokenFree - thisToken
        tokenUsedStatic := tokens.tokenUsedStatic + thisToken },
      { node with
        tokenQuota    := node.tokenQuota + thisToken
        tokenQuotaNew := node.tokenQuota + thisToken })
  else none

/-- `alloc_from_dynamic`. -/
def allocFromDynamic (tokens : TokenGlobal) (node : AppNode) : Option (TokenGlobal × AppNode) :=
  if node.tokenQuota ≤ tokens.defaultTokenMin then
    let thisToken := tokens.defaultTokenMin - node.tokenQuota
    some ({ tokens with tokenDynamicNew := tokens.tokenDynamicNew - thisToken },
      { node with
        tokenQuota    := node.tokenQuota + thisToken
        tokenQuotaNew := node.tokenQuota + thisToken })
  else none

/-- `online`. -/
def online (tokens : TokenGlobal) (node : AppNode) : Option (TokenGlobal × AppNode × QosError) :=
  match tokens.checkUpAppNum with
  | (tokens, .ok) => do
    let (tokens, node) ← tokens.allocFromRsvr node
    let (tokens, node) ← tokens.allocFromFree node
    let (tokens, node) ← tokens.allocFromDynamic node
    return (tokens, node, .ok)
  | (tokens, err) => some (tokens, node, err)

/-- `free_to_rsvr`. -/
def freeToRsvr (tokens : TokenGlobal) (node : AppNode) : TokenGlobal × AppNode :=
  let thisToken := ULong.cmin (tokens.appMaxTokenRsvr - tokens.appTokenRsvr) node.tokenQuota
  ({ tokens with appTokenRsvr := tokens.appTokenRsvr + thisToken },
    { node with tokenQuota := node.tokenQuota - thisToken })

/-- `free_to_dynamic`. -/
def freeToDynamic (tokens : TokenGlobal) (node : AppNode) : Option (TokenGlobal × AppNode) :=
  let tokenStatic := ULong.cmax tokens.defaultTokenMin node.tokenQuota
  let usedStatic := tokens.tokenUsedStatic - tokenStatic
  if tokens.tokenDynamicNew ≤ tokens.tokenDynamic then
    let thisToken := ULong.cmin (tokens.tokenDynamic - tokens.tokenDynamicNew)
      (node.tokenQuota - usedStatic)
    some ({ tokens with
        tokenUsedStatic := usedStatic
        tokenDynamic    := tokens.tokenDynamic + thisToken },
      { node with tokenQuota := node.tokenQuota - thisToken })
  else none

/-- `free_to_free`. -/
def freeToFree (tokens : TokenGlobal) (node : AppNode) : TokenGlobal :=
  { tokens with tokenFree := tokens.tokenFree + node.tokenQuota }

/-- `offline`. -/
def offline (tokens : TokenGlobal) (node : AppNode) : Option (TokenGlobal × AppNode) :=
  if tokens.appNumCur > 0 then do
    let tokens := { tokens with appNumCur := tokens.appNumCur - 1 }
    let (tokens, node) := tokens.freeToRsvr node
    let (tokens, node) ← tokens.freeToDynamic node
    return (tokens.freeToFree node, node)
  else none

/-- `try_alloc`, with what it allocated. -/
def tryAlloc (tokens : TokenGlobal) (cost : ULong) : TokenGlobal × ULong :=
  let res := ULong.cmin tokens.tokenFree cost
  ({ tokens with tokenFree := tokens.tokenFree - res }, res)

/-- `gfree`: a debt is paid off first. -/
def gfree (tokens : TokenGlobal) (cost : ULong) : TokenGlobal :=
  if tokens.tokenDynamicNew < tokens.tokenDynamic then
    let tokenAvaliable := ULong.cmin (tokens.tokenDynamic - tokens.tokenDynamicNew) cost
    { tokens with
      tokenDynamic    := tokens.tokenDynamic - tokenAvaliable
      tokenUsedStatic := tokens.tokenUsedStatic + tokenAvaliable
      tokenFree       := tokens.tokenFree + (cost - tokenAvaliable) }
  else { tokens with tokenFree := tokens.tokenFree + cost }

/-- `increase`. -/
def increase (tokens : TokenGlobal) (units : ULong) : TokenGlobal :=
  { tokens with
    tokenFree       := tokens.tokenFree + units
    tokenTotal      := tokens.tokenTotal + units
    tokenDynamicNew := tokens.tokenDynamicNew + units
    tokenDynamic    := tokens.tokenDynamic + units }

/-- `could_decrease`, in unsigned arithmetic. -/
def couldDecrease (tokens : TokenGlobal) (units : ULong) : Bool :=
  ¬ ULong.cmin tokens.tokenDynamic tokens.tokenDynamicNew - units <
    tokens.appMaxTokenRsvr - tokens.appTokenRsvr

/-- `try_decrease`. -/
def tryDecrease (tokens : TokenGlobal) (units : ULong) : TokenGlobal × Bool :=
  if tokens.couldDecrease units then
    ({ tokens with
      tokenDynamicNew := tokens.tokenDynamicNew - units
      tokenDynamic    := tokens.tokenDynamic - units
      tokenFree       := tokens.tokenFree - ULong.cmin units tokens.tokenFree
      tokenTotal      := tokens.tokenTotal - units }, true)
  else (tokens, false)

-- ---------------------------------------------------------------------------
-- What `online` does
-- ---------------------------------------------------------------------------

/-- What a new app is owed when the reserve and the pool have given what they
have. -/
def shortfall (tokens : TokenGlobal) : ULong :=
  tokens.defaultTokenMin - ULong.cmin tokens.appTokenRsvr tokens.defaultTokenMin -
    ULong.cmin tokens.tokenFree
      (tokens.defaultTokenMin - ULong.cmin tokens.appTokenRsvr tokens.defaultTokenMin)

variable {tokens tokens' : TokenGlobal} {node node' : AppNode} {err : QosError}

theorem checkUpAppNum_cases (tokens : TokenGlobal) :
    tokens.checkUpAppNum = (tokens, .tooManyNodes) ∨
      tokens.checkUpAppNum = ({ tokens with appNumCur := tokens.appNumCur + 1 }, .ok) := by
  unfold checkUpAppNum
  split
  · exact Or.inl rfl
  · exact Or.inr rfl

/-- An app is refused, or has the minimum; a new one may have it on credit. -/
theorem online_cases (h : tokens.online node = some (tokens', node', err)) :
    (tokens.checkUpAppNum.2 = .tooManyNodes ∧ err = .tooManyNodes ∧ tokens' = tokens ∧
      node' = node) ∨
    (tokens.checkUpAppNum.2 = .ok ∧ err = .ok ∧
      node' = { node with
        tokenQuota    := tokens.defaultTokenMin
        tokenQuotaNew := tokens.defaultTokenMin } ∧
      tokens'.tokenDynamic = tokens.tokenDynamic ∧
      (node.tokenQuota = 0 →
        tokens'.tokenDynamicNew = tokens.tokenDynamicNew - tokens.shortfall)) := by
  unfold online at h
  rcases tokens.checkUpAppNum_cases with hCheck | hCheck <;> simp only [hCheck] at h ⊢
  · simp only [Option.some.injEq, Prod.mk.injEq] at h
    obtain ⟨rfl, rfl, rfl⟩ := h
    exact Or.inl ⟨trivial, rfl, rfl, rfl⟩
  · obtain ⟨⟨tokens₁, node₁⟩, hFromRsvr, h⟩ := Option.bind_eq_some_iff.mp h
    obtain ⟨⟨tokens₂, node₂⟩, hFromFree, h⟩ := Option.bind_eq_some_iff.mp h
    obtain ⟨⟨tokens₃, node₃⟩, hFromDynamic, h⟩ := Option.bind_eq_some_iff.mp h
    simp only [Option.pure_def, Option.some.injEq, Prod.mk.injEq] at h
    obtain ⟨rfl, rfl, rfl⟩ := h
    simp only [allocFromRsvr, Option.ite_none_right_eq_some, Option.some.injEq,
      Prod.mk.injEq] at hFromRsvr
    obtain ⟨-, rfl, rfl⟩ := hFromRsvr
    simp only [allocFromFree, Option.ite_none_right_eq_some, Option.some.injEq,
      Prod.mk.injEq] at hFromFree
    obtain ⟨-, rfl, rfl⟩ := hFromFree
    simp only [allocFromDynamic, Option.ite_none_right_eq_some, Option.some.injEq,
      Prod.mk.injEq] at hFromDynamic
    obtain ⟨-, rfl, rfl⟩ := hFromDynamic
    refine Or.inr ⟨trivial, rfl, ?_, rfl, fun hFresh => ?_⟩
    · simp only [add_sub_cancel]
    · simp only [shortfall, hFresh, zero_add, sub_zero]
      rw [BitVec.sub_sub]

/-- What the reserve gives a new app. -/
def fromRsvr (tokens : TokenGlobal) : ULong := ULong.cmin tokens.appTokenRsvr tokens.defaultTokenMin

/-- What the pool gives it then. -/
def fromFree (tokens : TokenGlobal) : ULong :=
  ULong.cmin tokens.tokenFree (tokens.defaultTokenMin - tokens.fromRsvr)

/-- The counters after a new app was let in. -/
def letIn (tokens : TokenGlobal) : TokenGlobal :=
  { tokens with
    appNumCur       := tokens.appNumCur + 1
    appTokenRsvr    := tokens.appTokenRsvr - tokens.fromRsvr
    tokenFree       := tokens.tokenFree - tokens.fromFree
    tokenUsedStatic := tokens.tokenUsedStatic + tokens.fromRsvr + tokens.fromFree
    tokenDynamicNew := tokens.tokenDynamicNew - tokens.shortfall }

theorem fromRsvr_le (tokens : TokenGlobal) : tokens.fromRsvr ≤ tokens.defaultTokenMin :=
  ULong.cmin_le_right _ _

theorem fromFree_le (tokens : TokenGlobal) :
    tokens.fromFree ≤ tokens.defaultTokenMin - tokens.fromRsvr :=
  ULong.cmin_le_right _ _

/-- `online` of a new app fails no assertion. -/
theorem online_fresh (tokens : TokenGlobal) (hFresh : node.tokenQuota = 0) :
    tokens.online node =
      if tokens.checkUpAppNum.2 = .ok then
        some (tokens.letIn, { node with
          tokenQuota    := tokens.defaultTokenMin
          tokenQuotaNew := tokens.defaultTokenMin }, .ok)
      else some (tokens, node, .tooManyNodes) := by
  unfold online
  rcases tokens.checkUpAppNum_cases with hCheck | hCheck
  · simp only [hCheck, reduceCtorEq, if_false]
  · have hTwo : tokens.fromRsvr + tokens.fromFree ≤ tokens.defaultTokenMin := by
      have hRsvr := tokens.fromRsvr_le
      have hFree := tokens.fromFree_le
      bv_omega
    have hFromRsvr : { tokens with appNumCur := tokens.appNumCur + 1 }.allocFromRsvr node =
        some ({ tokens with
            appNumCur       := tokens.appNumCur + 1
            appTokenRsvr    := tokens.appTokenRsvr - tokens.fromRsvr
            tokenUsedStatic := tokens.tokenUsedStatic + tokens.fromRsvr },
          { node with tokenQuota := tokens.fromRsvr, tokenQuotaNew := tokens.fromRsvr }) := by
      rw [allocFromRsvr, if_pos (by rw [hFresh, BitVec.le_def]; exact Nat.zero_le _)]
      simp only [hFresh, sub_zero, zero_add, fromRsvr]
    have hFromFree : { tokens with
          appNumCur       := tokens.appNumCur + 1
          appTokenRsvr    := tokens.appTokenRsvr - tokens.fromRsvr
          tokenUsedStatic := tokens.tokenUsedStatic + tokens.fromRsvr }.allocFromFree
        { node with tokenQuota := tokens.fromRsvr, tokenQuotaNew := tokens.fromRsvr } =
        some ({ tokens.letIn with tokenDynamicNew := tokens.tokenDynamicNew },
          { node with
            tokenQuota    := tokens.fromRsvr + tokens.fromFree
            tokenQuotaNew := tokens.fromRsvr + tokens.fromFree }) :=
      if_pos tokens.fromRsvr_le
    have hFromDynamic : { tokens.letIn with
          tokenDynamicNew := tokens.tokenDynamicNew }.allocFromDynamic { node with
            tokenQuota    := tokens.fromRsvr + tokens.fromFree
            tokenQuotaNew := tokens.fromRsvr + tokens.fromFree } =
        some (tokens.letIn, { node with
          tokenQuota    := tokens.defaultTokenMin
          tokenQuotaNew := tokens.defaultTokenMin }) := by
      have hOwed : tokens.defaultTokenMin - (tokens.fromRsvr + tokens.fromFree) =
          tokens.shortfall := (BitVec.sub_sub _ _ _).symm
      have hAll : tokens.fromRsvr + tokens.fromFree + tokens.shortfall = tokens.defaultTokenMin := by
        rw [← hOwed, add_sub_cancel]
      refine (if_pos hTwo).trans ?_
      simp only [letIn, hOwed, hAll]
    simp only [hCheck, if_true, hFromRsvr, hFromFree, hFromDynamic, Option.bind_eq_bind,
      Option.bind_some, Option.pure_def]

end TokenGlobal

end DatastorQos
