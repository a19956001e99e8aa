import DatastorQos.Dispatcher.TokenUpdate
import DatastorQos.Dispatcher.TokenGlobal
import DatastorQos.Table.HashTable

/-!
# dispatch_manager — the dispatcher

The model of `sysqos_dispatch_manager.c`, with `fence_executor.c` and
`count_controller.c`. Every call is a sequence of sections that each hold the
manager's lock once; the sections are definitions of their own, since other
calls can come in between.

`none` is a call that does not return: an assertion fails, or the wait-increase
list is served for ever. The node table has its `compare` and `hash_id`.
-/

namespace DatastorQos

variable {Id : Type}

/-- `count_controller_t`. -/
structure CountController where
  cnt : Int
  max : Int
  deriving DecidableEq, Repr

namespace CountController

/-- `test_cnt` with `up_cnt`, run without interference. -/
def testCnt (c : CountController) : CountController × Bool :=
  if c.cnt < c.max then ({ c with cnt := c.cnt + 1 }, false) else ({ c with cnt := 0 }, true)

/-- `clear`. -/
def clear (c : CountController) : CountController := { c with cnt := 0 }

end CountController

/-- `sysqos_disp_manager_t`. `apps` is memory and the wait-increase list,
`isExe` is the executor, `nextNode` the address that comes next. -/
structure DispManager (ops : IdOps Id) where
  tokens          : TokenGlobal
  apps            : AppNodes
  tab             : HashTable ops AppNodePtr
  tokenNodeCache  : MemoryCache
  nextNode        : AppNodePtr
  defaultTokenMin : ULong
  fenceId         : ULong
  cntController   : CountController
  isExe           : Bool
  updateCtx       : TokenUpdateCtx

namespace DispManager

variable {ops : IdOps Id}

/-- `sysqos_disp_manager_init`. -/
def init (ops : IdOps Id) (tableLen : Nat) (maxNodeNum : ULong) (updateInterval : Int)
    (minRsNum : ULong) (h : 0 < tableLen) : DispManager ops where
  tokens          := .init maxNodeNum minRsNum
  apps            := ⟨[], ⟨[]⟩⟩
  tab             := .alloc ops AppNodePtr tableLen maxNodeNum h
  tokenNodeCache  := .init maxNodeNum
  nextNode        := 0
  defaultTokenMin := minRsNum
  fenceId         := 0
  cntController   := ⟨0, updateInterval⟩
  isExe           := false
  updateCtx       := .init

-- ---------------------------------------------------------------------------
-- Serving the wait-increase list, and rebalancing
-- ---------------------------------------------------------------------------

/-- `wait_increase_erase`. -/
def waitIncreaseErase (m : DispManager ops) (node : AppNodePtr) : DispManager ops :=
  { m with apps := { m.apps with lheadWaitIncrease := m.apps.lheadWaitIncrease.erase node } }

/-- `global_try_alloc`. -/
def globalTryAlloc (m : DispManager ops) (cost : ULong) : DispManager ops × ULong :=
  ({ m with tokens := (m.tokens.tryAlloc cost).1 }, (m.tokens.tryAlloc cost).2)

/-- `try_clear_wait_increase`, for at most `fuel` rounds of its loop. -/
def tryClearWaitIncrease : Nat → DispManager ops → Option (DispManager ops)
  | 0, _ => none
  | fuel + 1, m =>
    match m.apps.lheadWaitIncrease.isFirstExist with
    | none => some m
    | some ptr => do
      let node ← m.apps.node? ptr
      match node.updateTokenQuota m globalTryAlloc waitIncreaseErase with
      | (m, true) => tryClearWaitIncrease fuel m
      | (m, false) => some m

/-- `update_nodes_token_quota_new`. -/
def updateNodesTokenQuotaNew (m : DispManager ops) : Option (DispManager ops) := do
  let (pctx, apps) ← m.updateCtx.addResources m.apps (m.tab.items.map (·.pri))
  let (pctx, apps, _) ← pctx.update apps AppNodes.setQuotaNew
  return { m with updateCtx := pctx, apps := apps }

/-- `execute` of the executor, whose flag nothing resets. -/
def execute (m : DispManager ops) : Option (DispManager ops) :=
  if m.isExe then some m else { m with isExe := true }.updateNodesTokenQuotaNew

/-- `update_policy`. -/
def updatePolicy (fuel : Nat) (isDirect : Bool) (m : DispManager ops) : Option (DispManager ops) :=
  if isDirect then do
    let m ← { m with cntController := m.cntController.clear }.execute
    m.tryClearWaitIncrease fuel
  else
    match m.cntController.testCnt with
    | (c, false) => some { m with cntController := c }
    | (c, true) => do
      let m ← { m with cntController := c }.execute
      m.tryClearWaitIncrease fuel

-- ---------------------------------------------------------------------------
-- Calls
-- ---------------------------------------------------------------------------

/-- `resource_increase`, under its lock. -/
def increaseSection (m : DispManager ops) (cost : ULong) : DispManager ops :=
  { m with tokens := m.tokens.increase cost }

/-- `resource_increase`. -/
def resourceIncrease (fuel : Nat) (m : DispManager ops) (cost : ULong) : Option (DispManager ops) :=
  (m.increaseSection cost).updatePolicy fuel true

/-- `resource_reduce`, under its lock. -/
def reduceSection (m : DispManager ops) (cost : ULong) : DispManager ops × Bool :=
  ({ m with tokens := (m.tokens.tryDecrease cost).1 }, (m.tokens.tryDecrease cost).2)

/-- `resource_reduce`. -/
def resourceReduce (fuel : Nat) (m : DispManager ops) (cost : ULong) : Option (DispManager ops) :=
  match m.reduceSection cost with
  | (m, true) => m.updatePolicy fuel true
  | (m, false) => some m

/-- `node_online`, up to `update_policy`, which follows if the node is in. -/
def onlineSection (m : DispManager ops) (id : Id) : Option (DispManager ops × Bool) :=
  match m.tokenNodeCache.alloc with
  | none => some (m, false)
  | some cache =>
    let node := AppNode.init m.nextNode m.defaultTokenMin m.fenceId
    let m := { m with tokenNodeCache := cache, nextNode := m.nextNode + 1, fenceId := m.fenceId + 1 }
    match m.tab.find id with
    | some _ => some ({ m with tokenNodeCache := m.tokenNodeCache.free }, false)
    | none => do
      let (tokens, node, err) ← m.tokens.online node
      let m := { m with tokens := tokens }
      if err = .ok then
        let (tab, err) ← m.tab.insert id node.ptr
        let m := { m with tab := tab }
        if err = .ok then
          return ({ m with apps := { m.apps with nodes := node :: m.apps.nodes } }, true)
        else
          let (tokens, _) ← m.tokens.offline node
          return ({ m with tokens := tokens, tokenNodeCache := m.tokenNodeCache.free }, false)
      else
        return ({ m with tokenNodeCache := m.tokenNodeCache.free }, false)

/-- `node_online`. -/
def nodeOnline (fuel : Nat) (m : DispManager ops) (id : Id) : Option (DispManager ops) := do
  match ← m.onlineSection id with
  | (m, true) => m.updatePolicy fuel true
  | (m, false) => some m

/-- `node_offline`. The table is asked for no value, so the node that comes off
the list is `NULL`, which the list asserts it is not. -/
def nodeOffline (m : DispManager ops) (id : Id) : Option (DispManager ops) :=
  match m.tab.erase id with
  | (_, some _) => none
  | (_, none) => some m

/-- `check_online`. -/
def checkOnline (fuel : Nat) (m : DispManager ops) (id : Id) : Option (DispManager ops) :=
  match m.tab.find id with
  | some _ => some m
  | none => m.nodeOnline fuel id

/-- `node_reset`; nothing ever sets `node->reset`. -/
def nodeReset (fuel : Nat) (m : DispManager ops) (id : Id) : Option (DispManager ops) :=
  match m.tab.find id with
  | some _ => none
  | none => m.updatePolicy fuel true

/-- `node_rcvd`, with `*is_reset` and `*pnew_free_size` for a node that is
online. -/
def nodeRcvd (m : DispManager ops) (id : Id) (a2d : App2Dispatch) :
    Option (DispManager ops × Option (Bool × ULong)) :=
  match m.tab.find id with
  | none => some (m, none)
  | some ptr => do
    let node ← m.apps.node? ptr
    let (node, isReset, newFreeSize) := node.rcvd a2d 0
    return ({ m with apps := m.apps.setNode node }, some (isReset, newFreeSize))

/-- `tokens.free`. -/
def tokensFree (m : DispManager ops) (cost : ULong) : DispManager ops :=
  { m with tokens := m.tokens.gfree cost }

/-- `rcvd`. The message that is processed is the local `a2d`, which nothing
initialises: it can be any. -/
def rcvd (fuel : Nat) (m : DispManager ops) (id : Id) (a2d : App2Dispatch) :
    Option (DispManager ops) := do
  let m ← m.checkOnline fuel id
  match ← m.nodeRcvd id a2d with
  | (m, none) => some m
  | (m, some (isReset, newFreeSize)) =>
    if isReset then do
      let m ← m.nodeReset fuel id
      m.updatePolicy fuel true
    else if newFreeSize ≠ 0 then
      (m.tokensFree newFreeSize).tryClearWaitIncrease fuel
    else
      m.updatePolicy fuel false

end DispManager

end DatastorQos
