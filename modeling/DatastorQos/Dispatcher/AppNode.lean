import DatastorQos.Interface

/-!
# app_node — one app, dispatcher side

The model of `sysqos_app_node.c` and `sysqos_update_node.c`. An app node keeps
the quota its app has (`tokenQuota`), the quota the last rebalance gave it
(`tokenQuotaNew`) and what its app last reported.

Where the source passes a function and a `pri` pointer for it to work on, the
definition takes that function and the state behind the pointer.
-/

namespace DatastorQos

/-- `limit_t`; a `max` of 0 is no limit. -/
structure Limit where
  min : ULong
  max : ULong
  deriving DecidableEq, Repr

/-- `update_node_t`: the part of an app node that a rebalance works on. -/
structure UpdateNode where
  weight        : ULong
  tmpTokenQuota : ULong
  tokenBase     : ULong
  deriving DecidableEq, Repr

/-- `update_node_init`. -/
def UpdateNode.init (tokenQuota : ULong) (limit : Limit) (press : ULong) : UpdateNode where
  tokenBase     := ULong.cmin limit.min tokenQuota
  tmpTokenQuota := tokenQuota - ULong.cmin limit.min tokenQuota
  weight        := press

/-- The address of an `app_node_t`. -/
abbrev AppNodePtr := Nat

/-- `app_node_t`, with its own address. -/
structure AppNode where
  ptr           : AppNodePtr
  updatenode    : UpdateNode
  tokenInuse    : ULong
  tokenQuota    : ULong
  tokenQuotaNew : ULong
  press         : ULong
  limit         : Limit
  version       : Int
  fenceId       : ULong
  deriving DecidableEq, Repr

namespace AppNode

/-- `app_node_init`. -/
def init (ptr : AppNodePtr) (minUnits fenceId : ULong) : AppNode where
  ptr           := ptr
  updatenode    := .init 0 ⟨minUnits, 0⟩ 0
  tokenInuse    := 0
  tokenQuota    := 0
  tokenQuotaNew := 0
  press         := 0
  limit         := ⟨minUnits, 0⟩
  version       := 0
  fenceId       := fenceId

/-- `dtn_alloc`: the node, the return value and `*pfence_id`, which is written
only if the tokens are given. -/
def dtnAlloc (node : AppNode) (cost fenceId : ULong) : AppNode × QosError × ULong :=
  if node.tokenInuse + cost > node.tokenQuota then (node, .tooBigCost, fenceId)
  else ({ node with tokenInuse := node.tokenInuse + cost }, .ok, node.fenceId)

/-- `dtn_free`; `none` is the assertion failing that less is in use than is
given back. -/
def dtnFree (node : AppNode) (cost fenceId : ULong) : Option AppNode :=
  if node.fenceId ≠ fenceId then some node
  else if node.tokenInuse < cost then some { node with tokenInuse := node.tokenInuse - cost }
  else none

/-- `get_protocol`. -/
def getProtocol (node : AppNode) : Dispatch2App where
  version    := node.version
  tokenQuota := ULong.cmin node.tokenQuotaNew node.tokenQuota

/-- `init_update_node`. -/
def initUpdateNode (node : AppNode) : AppNode :=
  { node with updatenode := .init node.tokenQuota node.limit node.press }

/-- `update_token_quota`: whether the pool had enough. The node stays as it
is. -/
def updateTokenQuota {σ : Type} (node : AppNode) (pri : σ)
    (tryAllocFunc : σ → ULong → σ × ULong) (eraseFunc : σ → AppNodePtr → σ) : σ × Bool :=
  if node.tokenQuota < node.tokenQuotaNew then
    let (pri, newQuota) := tryAllocFunc pri (node.tokenQuotaNew - node.tokenQuota)
    if newQuota = node.tokenQuotaNew - node.tokenQuota then
      (eraseFunc pri node.ptr, true)
    else
      (pri, false)
  else
    (pri, true)

/-- `new_quota_under_limit`. -/
def newQuotaUnderLimit (node : AppNode) (tokenQuotaNew : ULong) : ULong :=
  if node.limit.max > 0 then ULong.cmin node.limit.max tokenQuotaNew else tokenQuotaNew

/-- `update_token_quota_new_base`. -/
def updateTokenQuotaNewBase (node : AppNode) (tokenQuotaNew : ULong) : AppNode :=
  { node with tokenQuotaNew := tokenQuotaNew, version := node.version + 1 }

/-- `update_token_quota_new_up`: the node is to wait for its tokens. -/
def updateTokenQuotaNewUp {σ : Type} (node : AppNode) (tokenQuotaNew : ULong) (pri : σ)
    (insertFunc : σ → AppNodePtr → σ) : AppNode × σ :=
  (node.updateTokenQuotaNewBase tokenQuotaNew, insertFunc pri node.ptr)

/-- `update_token_quota_new_down`. -/
def updateTokenQuotaNewDown {σ : Type} (node : AppNode) (tokenQuotaNew : ULong) (pri : σ) :
    AppNode × σ :=
  (node.updateTokenQuotaNewBase tokenQuotaNew, pri)

/-- The middle of `update_token_quota_new`, under the limit. -/
def moveTokenQuotaNew {σ : Type} (node : AppNode) (tokenQuotaNew : ULong) (pri : σ)
    (insertFunc : σ → AppNodePtr → σ) : AppNode × σ :=
  if node.tokenQuotaNew > tokenQuotaNew then
    node.updateTokenQuotaNewDown tokenQuotaNew pri
  else if node.tokenQuotaNew < tokenQuotaNew then
    node.updateTokenQuotaNewUp tokenQuotaNew pri insertFunc
  else
    ({ node with tokenQuotaNew := tokenQuotaNew }, pri)

/-- `update_token_quota_new`, which returns the quota it has set; `none` is one
of its two assertions failing. -/
def updateTokenQuotaNew {σ : Type} (node : AppNode) (tokenQuotaNew : ULong) (pri : σ)
    (insertFunc : σ → AppNodePtr → σ) : Option (AppNode × σ × ULong) :=
  if node.limit.min ≤ tokenQuotaNew ∧ node.limit.min ≤ node.newQuotaUnderLimit tokenQuotaNew then
    let (node', pri) :=
      node.moveTokenQuotaNew (node.newQuotaUnderLimit tokenQuotaNew) pri insertFunc
    some (node', pri, node.newQuotaUnderLimit tokenQuotaNew)
  else none

/-- `update_quota_after_rcvd`: the node, and what it set free. -/
def updateQuotaAfterRcvd (node : AppNode) (confirmToken : ULong) : AppNode × ULong :=
  let newQuota := ULong.cmin confirmToken node.tokenQuotaNew
  if node.tokenQuota < newQuota then
    ({ node with tokenQuota := newQuota }, newQuota - node.tokenQuota)
  else (node, 0)

/-- `rcvd`: the node, whether it is to be reset, and `*free_size`, which is
written only for a message of the current version. -/
def rcvd (node : AppNode) (a2d : App2Dispatch) (freeSize : ULong) : AppNode × Bool × ULong :=
  if a2d.version = node.version then
    let (node, freeSize) :=
      { node with press := a2d.press.fifoDepth }.updateQuotaAfterRcvd a2d.tokenInUse
    (node, false, freeSize)
  else (node, false, freeSize)

-- ---------------------------------------------------------------------------
-- What each call does
-- ---------------------------------------------------------------------------

variable {σ : Type} {node node' : AppNode} {pri pri' : σ} {insertFunc : σ → AppNodePtr → σ}

@[simp] theorem initUpdateNode_ptr : node.initUpdateNode.ptr = node.ptr := rfl

@[simp] theorem initUpdateNode_tokenQuota : node.initUpdateNode.tokenQuota = node.tokenQuota := rfl

/-- No message asks for a reset. -/
theorem rcvd_isReset (node : AppNode) (a2d : App2Dispatch) (freeSize : ULong) :
    (node.rcvd a2d freeSize).2.1 = false := by
  unfold rcvd
  split <;> rfl

/-- A confirmation of no more than the quota sets nothing free. -/
theorem rcvd_keeps {a2d : App2Dispatch}
    (h : a2d.version = node.version → ULong.cmin a2d.tokenInUse node.tokenQuotaNew ≤ node.tokenQuota) :
    ∃ press, node.rcvd a2d 0 = ({ node with press := press }, false, 0) := by
  unfold rcvd
  split
  · rename_i hVersion
    have hNot : ¬ node.tokenQuota < ULong.cmin a2d.tokenInUse node.tokenQuotaNew :=
      BitVec.not_lt.mpr (h hVersion)
    exact ⟨a2d.press.fifoDepth, by simp only [updateQuotaAfterRcvd, if_neg hNot]⟩
  · exact ⟨node.press, rfl⟩

/-- A new quota changes nothing but the target, and the version with it. -/
theorem moveTokenQuotaNew_fst (node : AppNode) (quota : ULong) (pri : σ)
    (insertFunc : σ → AppNodePtr → σ) :
    (node.moveTokenQuotaNew quota pri insertFunc).1 = { node with
      tokenQuotaNew := quota
      version := if node.tokenQuotaNew = quota then node.version else node.version + 1 } := by
  unfold moveTokenQuotaNew
  split
  · rename_i hDown
    rw [if_neg (BitVec.ne_of_lt hDown).symm]
    rfl
  · rename_i hNotDown
    split
    · rename_i hUp
      rw [if_neg (BitVec.ne_of_lt hUp)]
      rfl
    · rename_i hNotUp
      rw [if_pos (by bv_omega)]

/-- A node is put on the list for a higher target than it had. -/
theorem moveTokenQuotaNew_snd (node : AppNode) (quota : ULong) (pri : σ)
    (insertFunc : σ → AppNodePtr → σ) :
    (node.moveTokenQuotaNew quota pri insertFunc).2 =
      if node.tokenQuotaNew < quota then insertFunc pri node.ptr else pri := by
  unfold moveTokenQuotaNew
  split
  · rename_i hDown
    exact (if_neg (BitVec.not_lt.mpr (BitVec.le_of_lt hDown))).symm
  · split <;> rfl

/-- What is set is the quota asked for, under the limit. -/
theorem updateTokenQuotaNew_eq {quota quota' : ULong}
    (h : node.updateTokenQuotaNew quota pri insertFunc = some (node', pri', quota')) :
    node.limit.min ≤ quota ∧ quota' = node.newQuotaUnderLimit quota ∧ node.limit.min ≤ quota' ∧
      ∃ version, node' = { node with tokenQuotaNew := quota', version := version } := by
  unfold updateTokenQuotaNew at h
  split at h
  · rename_i hMin
    obtain ⟨rfl, -, rfl⟩ := by simpa only [Option.some.injEq, Prod.mk.injEq] using h
    exact ⟨hMin.1, rfl, hMin.2, _, moveTokenQuotaNew_fst node _ pri insertFunc⟩
  · cases h

theorem newQuotaUnderLimit_uncapped (hMax : node.limit.max = 0) (quota : ULong) :
    node.newQuotaUnderLimit quota = quota := by
  simp [newQuotaUnderLimit, hMax]

/-- A new target is a new version. -/
theorem updateTokenQuotaNew_version {quota quota' : ULong}
    (h : node.updateTokenQuotaNew quota pri insertFunc = some (node', pri', quota')) :
    node' = { node with tokenQuotaNew := quota', version := node.version + 1 } ∨ node' = node := by
  unfold updateTokenQuotaNew at h
  split at h
  · simp only [Option.some.injEq, Prod.mk.injEq] at h
    obtain ⟨rfl, -, rfl⟩ := h
    rw [moveTokenQuotaNew_fst]
    by_cases hSame : node.tokenQuotaNew = node.newQuotaUnderLimit quota
    · rw [if_pos hSame, ← hSame]
      exact Or.inr rfl
    · rw [if_neg hSame]
      exact Or.inl rfl
  · cases h

/-- What a message does to a node. -/
theorem rcvd_cases (node : AppNode) (a2d : App2Dispatch) (freeSize : ULong) :
    (∃ press, (node.rcvd a2d freeSize).1 = { node with press := press }) ∧
      (a2d.version = node.version →
        ULong.cmin a2d.tokenInUse node.tokenQuotaNew ≤ node.tokenQuota) ∨
    a2d.version = node.version ∧ node.tokenQuota < ULong.cmin a2d.tokenInUse node.tokenQuotaNew ∧
      (node.rcvd a2d freeSize).1 = { node with
        press      := a2d.press.fifoDepth
        tokenQuota := ULong.cmin a2d.tokenInUse node.tokenQuotaNew } := by
  unfold rcvd
  split
  · rename_i hVersion
    by_cases hRaise : node.tokenQuota < ULong.cmin a2d.tokenInUse node.tokenQuotaNew
    · refine Or.inr ⟨hVersion, hRaise, ?_⟩
      simp only [updateQuotaAfterRcvd, if_pos hRaise]
    · refine Or.inl ⟨⟨a2d.press.fifoDepth, ?_⟩, fun _ => BitVec.not_lt.mp hRaise⟩
      simp only [updateQuotaAfterRcvd, if_neg hRaise]
  · rename_i hVersion
    exact Or.inl ⟨⟨node.press, rfl⟩, fun heq => absurd heq hVersion⟩

/-- A message of the node's version brings its press. -/
theorem rcvd_press (node : AppNode) {a2d : App2Dispatch} (freeSize : ULong)
    (hVersion : node.version = a2d.version) :
    (node.rcvd a2d freeSize).1.press = a2d.press.fifoDepth := by
  unfold rcvd updateQuotaAfterRcvd
  rw [if_pos hVersion.symm]
  simp only
  split <;> rfl

end AppNode

end DatastorQos
