import DatastorQos.Dispatcher.DispManager
import DatastorQos.Table.FiniteMap

/-!
# datastor_qos — the functions behind the node table and the nodes

A table is made without `hash`, and its chains without `compare`: both are set
later, from the `msg_ops_t` of the transport. The `set_msg_ops` of
`token_reqgrp_manager` sets them; that of the dispatcher keeps the `msg_ops_t`
and sets nothing, so the first call that looks a node up fails an assertion.

* `installed_is_finite_map` — with both set, the table is a finite map on ids up
  to `compare`;
* `Installed.rcvd`, `Installed.nodeReset` — a message then does what it does in the
  model without wiring, but a node that is reset is called through a pointer that
  nothing sets;
* `lookup_live_iff` — the calls of a dispatcher never reach for a function that
  is not there exactly if each of them gives up for want of a node object.
-/

namespace DatastorQos

variable {Id α : Type} {ops : IdOps Id}

/-- What ends a call that does not return. -/
inductive Fault where
  /-- a table operation without `hash` or `compare` -/
  | unwired
  /-- a node operation through an unset pointer -/
  | unsetOp
  /-- another assertion fails, or serving does not end -/
  | stopped
  deriving DecidableEq, Repr

-- ---------------------------------------------------------------------------
-- Tables with functions still to be set
-- ---------------------------------------------------------------------------

/-- `hash_table_t` as it is made: `hash` and the `compare` of its chains are
`NULL` or those of `ops`. -/
structure WiredTable (ops : IdOps Id) (α : Type) where
  tab     : HashTable ops α
  hash    : Bool
  compare : Bool

namespace WiredTable

/-- `alloc_hash_table`; the memory comes zeroed. -/
def alloc (ops : IdOps Id) (α : Type) (tableLen : Nat) (itemNum : ULong) (h : 0 < tableLen) :
    WiredTable ops α where
  tab     := .alloc ops α tableLen itemNum h
  hash    := false
  compare := false

/-- `hset_hash` with `ops->hash_id`. -/
def setHash (t : WiredTable ops α) : WiredTable ops α := { t with hash := true }

/-- `hset_compare` with `ops->compare`, which `rwset_compare` writes to each chain. -/
def setCompare (t : WiredTable ops α) : WiredTable ops α := { t with compare := true }

/-- The assertions of a table operation: `tab->hash`, then `list->compare`. -/
def wired (t : WiredTable ops α) : Except Fault Unit :=
  if t.hash = true ∧ t.compare = true then .ok () else .error .unwired

/-- `hfind`. -/
def find (t : WiredTable ops α) (id : Id) : Except Fault (Option α) := do
  t.wired
  return t.tab.find id

/-- `hinsert`. -/
def insert (t : WiredTable ops α) (id : Id) (pri : α) :
    Except Fault (WiredTable ops α × TableError) := do
  t.wired
  match t.tab.insert id pri with
  | some (tab, err) => return ({ t with tab := tab }, err)
  | none => .error .stopped

/-- `herase`. -/
def erase (t : WiredTable ops α) (id : Id) : Except Fault (WiredTable ops α × Option α) := do
  t.wired
  return ({ t with tab := (t.tab.erase id).1 }, (t.tab.erase id).2)

/-- What `set_msg_ops` of `token_reqgrp_manager` does to its table. -/
def setMsgOps (t : WiredTable ops α) : WiredTable ops α := t.setHash.setCompare

/-- The finite map that the table stands for. -/
def toMap (t : WiredTable ops α) : Finmap fun _ : IdClass ops => α := t.tab.toMap

/-- With `hash` and `compare` set the table is a finite map on ids up to
`compare`: it finds the binding, an erasure drops it, and an insertion adds it
if there is none. -/
theorem installed_is_finite_map (t : WiredTable ops α) (id : Id) (pri : α) :
    t.setMsgOps.find id = .ok (t.toMap.lookup (ops.classOf id)) ∧
    (∃ t', t.setMsgOps.erase id = .ok (t', t.toMap.lookup (ops.classOf id)) ∧
      t'.toMap = t.toMap.erase (ops.classOf id)) ∧
    ∀ t' err, t.setMsgOps.insert id pri = .ok (t', err) →
      t'.toMap = if err = .ok then t.toMap.insert (ops.classOf id) pri else t.toMap := by
  refine ⟨?_, ?_, fun t' err h => ?_⟩
  · rw [toMap, HashTable.lookup_toMap]
    rfl
  · refine ⟨{ t.setMsgOps with tab := (t.tab.erase id).1 }, ?_, HashTable.toMap_erase t.tab id⟩
    rw [toMap, HashTable.lookup_toMap, ← HashTable.erase_snd]
    rfl
  · have hInsert : t.setMsgOps.insert id pri = match t.tab.insert id pri with
        | some (tab, err) => .ok ({ t.setMsgOps with tab := tab }, err)
        | none => .error .stopped := rfl
    rw [hInsert] at h
    split at h
    · rename_i tab err' hTab
      obtain ⟨rfl, rfl⟩ := by simpa only [Except.ok.injEq, Prod.mk.injEq] using h
      rcases HashTable.insert_cases hTab with hOk | hExist
      · simp only at hOk
        subst hOk
        rw [if_pos rfl]
        exact HashTable.toMap_insert hTab
      · simp only at hExist
        subst hExist
        rw [if_neg (by decide)]
        exact HashTable.toMap_insert_exist hTab
    · cases h

end WiredTable

-- ---------------------------------------------------------------------------
-- The operations of a node
-- ---------------------------------------------------------------------------

/-- The function pointers of `app_node_t` that the dispatcher calls through. -/
inductive AppNodeOp where
  | alloc
  | free
  | getProtocol
  | rcvd
  | reset
  deriving DecidableEq, Repr

/-- A call through a pointer that `appnode_init_func` sets, or leaves unset. -/
def AppNodeOp.callThrough : AppNodeOp → Except Fault Unit
  | alloc | free | getProtocol | rcvd => .ok ()
  | reset => .error .unsetOp

-- ---------------------------------------------------------------------------
-- The dispatcher
-- ---------------------------------------------------------------------------

/-- `sysqos_disp_manager_t` with the wiring of its table, and whether `msg_ops`
is set. -/
structure WiredDispatcher (ops : IdOps Id) where
  manager : DispManager ops
  hash    : Bool
  compare : Bool
  msgOps  : Bool

namespace WiredDispatcher

/-- `sysqos_disp_manager_init`. -/
def init (ops : IdOps Id) (tableLen : Nat) (maxNodeNum : ULong) (updateInterval : Int)
    (minRsNum : ULong) (h : 0 < tableLen) : WiredDispatcher ops where
  manager := .init ops tableLen maxNodeNum updateInterval minRsNum h
  hash    := (WiredTable.alloc ops AppNodePtr tableLen maxNodeNum h).hash
  compare := (WiredTable.alloc ops AppNodePtr tableLen maxNodeNum h).compare
  msgOps  := false

/-- `set_msg_ops` of the dispatcher. -/
def setMsgOps (w : WiredDispatcher ops) : WiredDispatcher ops := { w with msgOps := true }

/-- `manager->tab`. -/
def table (w : WiredDispatcher ops) : WiredTable ops AppNodePtr :=
  ⟨w.manager.tab, w.hash, w.compare⟩

/-- The dispatcher as it were if `set_msg_ops` did to its table what that of
`token_reqgrp_manager` does. -/
def installed (w : WiredDispatcher ops) : WiredDispatcher ops :=
  { w with
    hash    := w.table.setMsgOps.hash
    compare := w.table.setMsgOps.compare }

/-- The end of a call, once its first table operation has passed. -/
def ended (w : WiredDispatcher ops) : Option (DispManager ops) → Except Fault (WiredDispatcher ops)
  | some m => .ok { w with manager := m }
  | none => .error .stopped

/-- The node at an address the table handed out. -/
def node (w : WiredDispatcher ops) (ptr : AppNodePtr) : Except Fault AppNode :=
  match w.manager.apps.node? ptr with
  | some node => .ok node
  | none => .error .stopped

/-- A write to a node. -/
def setNode (w : WiredDispatcher ops) (node : AppNode) : WiredDispatcher ops :=
  { w with manager := { w.manager with apps := w.manager.apps.setNode node } }

/-- `node_online`: without an object for the node it returns before it looks the
id up. -/
def nodeOnline (fuel : Nat) (w : WiredDispatcher ops) (id : Id) :
    Except Fault (WiredDispatcher ops) :=
  match w.manager.tokenNodeCache.alloc with
  | none => .ok w
  | some _ => do
    let _ ← w.table.find id
    w.ended (w.manager.nodeOnline fuel id)

/-- `node_offline`. -/
def nodeOffline (w : WiredDispatcher ops) (id : Id) : Except Fault (WiredDispatcher ops) := do
  let _ ← w.table.erase id
  w.ended (w.manager.nodeOffline id)

/-- `node_reset`. -/
def nodeReset (fuel : Nat) (w : WiredDispatcher ops) (id : Id) :
    Except Fault (WiredDispatcher ops) := do
  match ← w.table.find id with
  | some _ => do
    AppNodeOp.reset.callThrough
    w.ended (w.manager.nodeReset fuel id)
  | none => w.ended (w.manager.nodeReset fuel id)

/-- `check_online`. -/
def checkOnline (fuel : Nat) (w : WiredDispatcher ops) (id : Id) :
    Except Fault (WiredDispatcher ops) := do
  match ← w.table.find id with
  | some _ => return w
  | none => w.nodeOnline fuel id

/-- `rcvd`; `a2d` is what its local variable holds. -/
def rcvd (fuel : Nat) (w : WiredDispatcher ops) (id : Id) (a2d : App2Dispatch) :
    Except Fault (WiredDispatcher ops) := do
  let w ← w.checkOnline fuel id
  match ← w.table.find id with
  | none => return w
  | some ptr => do
    AppNodeOp.rcvd.callThrough
    let node ← w.node ptr
    let (node, isReset, newFreeSize) := node.rcvd a2d 0
    let w := w.setNode node
    if isReset then do
      let w ← w.nodeReset fuel id
      w.ended (w.manager.updatePolicy fuel true)
    else if newFreeSize ≠ 0 then
      w.ended ((w.manager.tokensFree newFreeSize).tryClearWaitIncrease fuel)
    else
      w.ended (w.manager.updatePolicy fuel false)

/-- `snd_msg_buf`, with the message it writes for a node that is online. -/
def sndMsgBuf (w : WiredDispatcher ops) (id : Id) :
    Except Fault (QosError × Option Dispatch2App) := do
  match ← w.table.find id with
  | none => return (.failedNode, none)
  | some ptr => do
    AppNodeOp.getProtocol.callThrough
    let node ← w.node ptr
    return (.ok, some node.getProtocol)

/-- `alloc_tokens`, with `*fence_id`. -/
def allocTokens (fuel : Nat) (w : WiredDispatcher ops) (rs : Resource Id) (fenceId : ULong) :
    Except Fault (WiredDispatcher ops × QosError × ULong) := do
  let w ← w.checkOnline fuel rs.id
  match ← w.table.find rs.id with
  | none => return (w, .failedNode, fenceId)
  | some ptr => do
    AppNodeOp.alloc.callThrough
    let node ← w.node ptr
    let (node, err, fenceId) := node.dtnAlloc rs.cost fenceId
    return (w.setNode node, err, fenceId)

/-- `free_tokens`. -/
def freeTokens (w : WiredDispatcher ops) (rs : Resource Id) (fenceId : ULong) (isFail : Bool) :
    Except Fault (WiredDispatcher ops) :=
  if isFail then w.nodeOffline rs.id
  else do
    match ← w.table.find rs.id with
    | none => return w
    | some ptr => do
      AppNodeOp.free.callThrough
      let node ← w.node ptr
      match node.dtnFree rs.cost fenceId with
      | some node => return w.setNode node
      | none => .error .stopped

end WiredDispatcher

/-- A call of the dispatcher. -/
inductive LookupCall (Id : Type) where
  | nodeOnline (id : Id)
  | nodeOffline (id : Id)
  | nodeReset (id : Id)
  | rcvd (id : Id) (a2d : App2Dispatch)
  | sndMsgBuf (id : Id)
  | allocTokens (rs : Resource Id) (fenceId : ULong)
  | freeTokens (rs : Resource Id) (fenceId : ULong) (isFail : Bool)

namespace LookupCall

/-- The dispatcher after the call. -/
def apply (fuel : Nat) (w : WiredDispatcher ops) :
    LookupCall Id → Except Fault (WiredDispatcher ops)
  | nodeOnline id => w.nodeOnline fuel id
  | nodeOffline id => w.nodeOffline id
  | nodeReset id => w.nodeReset fuel id
  | rcvd id a2d => w.rcvd fuel id a2d
  | sndMsgBuf id => (w.sndMsgBuf id).map fun _ => w
  | allocTokens rs fenceId => (w.allocTokens fuel rs fenceId).map (·.1)
  | freeTokens rs fenceId isFail => w.freeTokens rs fenceId isFail

/-- One call after the other, up to the first that does not return. -/
def applyAll (fuel : Nat) (w : WiredDispatcher ops) (calls : List (LookupCall Id)) :
    Except Fault (WiredDispatcher ops) :=
  calls.foldlM (fun w call => call.apply fuel w) w

/-- The call is `node_online`, and there is no object for a node. -/
def GivesUp (w : WiredDispatcher ops) (call : LookupCall Id) : Prop :=
  (∃ id, call = nodeOnline id) ∧ w.manager.tokenNodeCache.alloc = none

end LookupCall

namespace WiredDispatcher

variable {w : WiredDispatcher ops} {call : LookupCall Id} {fuel : Nat}

/-- No call reaches for a function that is not there, and the calls do what they
do with `hash` and `compare` installed. -/
def LookupLive (w : WiredDispatcher ops) (calls : List (LookupCall Id)) : Prop :=
  ∀ fuel, LookupCall.applyAll fuel w calls ≠ .error .unwired ∧
    LookupCall.applyAll fuel w calls ≠ .error .unsetOp ∧
    (LookupCall.applyAll fuel w calls).map manager =
      (LookupCall.applyAll fuel w.installed calls).map manager

-- ---------------------------------------------------------------------------
-- With the functions installed
-- ---------------------------------------------------------------------------

/-- `hash` and `compare` are there. -/
def Installed (w : WiredDispatcher ops) : Prop := w.hash = true ∧ w.compare = true

theorem Installed.find (hw : w.Installed) (id : Id) :
    w.table.find id = .ok (w.manager.tab.find id) := by
  unfold WiredTable.find WiredTable.wired
  rw [if_pos (by exact hw)]
  rfl

theorem Installed.nodeOnline (hw : w.Installed) (id : Id) :
    w.nodeOnline fuel id = w.ended (w.manager.nodeOnline fuel id) := by
  unfold WiredDispatcher.nodeOnline
  split
  · rename_i hCache
    simp [DispManager.nodeOnline, DispManager.onlineSection, hCache, ended]
  · rw [hw.find]
    rfl

theorem Installed.nodeOffline (hw : w.Installed) (id : Id) :
    w.nodeOffline id = w.ended (w.manager.nodeOffline id) := by
  unfold WiredDispatcher.nodeOffline WiredTable.erase WiredTable.wired
  rw [if_pos (by exact hw)]
  rfl

theorem Installed.checkOnline (hw : w.Installed) (id : Id) :
    w.checkOnline fuel id = w.ended (w.manager.checkOnline fuel id) := by
  unfold WiredDispatcher.checkOnline DispManager.checkOnline
  rw [hw.find]
  cases w.manager.tab.find id with
  | some ptr => rfl
  | none => exact hw.nodeOnline id

/-- A node that is online is reset through a pointer that nothing sets. -/
theorem Installed.nodeReset (hw : w.Installed) (id : Id) :
    w.nodeReset fuel id =
      if (w.manager.tab.find id).isSome then .error .unsetOp
      else w.ended (w.manager.updatePolicy fuel true) := by
  unfold WiredDispatcher.nodeReset DispManager.nodeReset
  rw [hw.find]
  cases w.manager.tab.find id <;> rfl

/-- With `hash` and `compare` installed a message is that of the model without
wiring. -/
theorem Installed.rcvd (hw : w.Installed) (id : Id) (a2d : App2Dispatch) :
    w.rcvd fuel id a2d = w.ended (w.manager.rcvd fuel id a2d) := by
  unfold WiredDispatcher.rcvd DispManager.rcvd
  rw [hw.checkOnline]
  cases w.manager.checkOnline fuel id with
  | none => rfl
  | some m =>
    have hw' : ({ w with manager := m } : WiredDispatcher ops).Installed := hw
    simp only [ended, bind, Except.bind, Option.bind, hw'.find, DispManager.nodeRcvd]
    cases m.tab.find id with
    | none => rfl
    | some ptr =>
      simp only [node, AppNodeOp.callThrough]
      cases m.apps.node? ptr with
      | none => rfl
      | some node =>
        simp only [pure, node.rcvd_isReset]
        by_cases hFree : (node.rcvd a2d 0).2.2 = 0
        · simp only [Bool.false_eq_true, if_false, hFree, ne_eq, not_true]
          rfl
        · simp only [Bool.false_eq_true, if_false, hFree, ne_eq, not_false_eq_true, if_true]
          rfl

-- ---------------------------------------------------------------------------
-- What a call comes to without the functions
-- ---------------------------------------------------------------------------

theorem find_unwired (hHash : w.hash = false) (id : Id) :
    w.table.find id = .error .unwired := by
  simp [table, WiredTable.find, WiredTable.wired, hHash, bind, Except.bind]

theorem nodeOffline_unwired (hHash : w.hash = false) (id : Id) :
    w.nodeOffline id = .error .unwired := by
  simp [nodeOffline, table, WiredTable.erase, WiredTable.wired, hHash, bind, Except.bind]

theorem checkOnline_unwired (hHash : w.hash = false) (id : Id) :
    w.checkOnline fuel id = .error .unwired := by
  simp only [checkOnline, find_unwired hHash]
  rfl

theorem nodeOnline_givesUp (hCache : w.manager.tokenNodeCache.alloc = none) (id : Id) :
    w.nodeOnline fuel id = .ok w := by
  unfold nodeOnline
  rw [hCache]

/-- Without `hash` a call fails its first table operation, or never gets there. -/
theorem apply_unwired (hHash : w.hash = false) (fuel : Nat) (call : LookupCall Id)
    (hReaches : ¬ call.GivesUp w) : call.apply fuel w = .error .unwired := by
  cases call with
  | nodeOnline id =>
    have hCache : w.manager.tokenNodeCache.alloc ≠ none := fun h => hReaches ⟨⟨id, rfl⟩, h⟩
    obtain ⟨cache, hCache⟩ := Option.ne_none_iff_exists'.mp hCache
    simp only [LookupCall.apply, nodeOnline, hCache, find_unwired hHash]
    rfl
  | nodeOffline id => exact nodeOffline_unwired hHash id
  | nodeReset id =>
    simp only [LookupCall.apply, nodeReset, find_unwired hHash]
    rfl
  | rcvd id a2d =>
    simp only [LookupCall.apply, rcvd, checkOnline_unwired hHash]
    rfl
  | sndMsgBuf id =>
    simp only [LookupCall.apply, sndMsgBuf, find_unwired hHash]
    rfl
  | allocTokens rs fenceId =>
    simp only [LookupCall.apply, allocTokens, checkOnline_unwired hHash]
    rfl
  | freeTokens rs fenceId isFail =>
    cases isFail with
    | true => exact nodeOffline_unwired hHash rs.id
    | false =>
      simp only [LookupCall.apply, freeTokens, find_unwired hHash]
      rfl

theorem apply_givesUp (h : call.GivesUp w) : call.apply fuel w = .ok w := by
  obtain ⟨⟨id, rfl⟩, hCache⟩ := h
  exact nodeOnline_givesUp hCache id

/-- Calls that give up one after the other leave the dispatcher as it is. -/
theorem applyAll_givesUp {calls : List (LookupCall Id)} (h : ∀ call ∈ calls, call.GivesUp w) :
    LookupCall.applyAll fuel w calls = .ok w := by
  induction calls with
  | nil => rfl
  | cons call calls ih =>
    obtain ⟨hFirst, hRest⟩ := List.forall_mem_cons.mp h
    unfold LookupCall.applyAll at ih ⊢
    rw [List.foldlM_cons, apply_givesUp hFirst]
    exact ih hRest

/-- The first call that does not give up fails its table operation. -/
theorem applyAll_unwired (hHash : w.hash = false) {calls : List (LookupCall Id)}
    (h : ∃ call ∈ calls, ¬ call.GivesUp w) :
    LookupCall.applyAll fuel w calls = .error .unwired := by
  induction calls with
  | nil => simp at h
  | cons call calls ih =>
    unfold LookupCall.applyAll at ih ⊢
    rw [List.foldlM_cons]
    by_cases hFirst : call.GivesUp w
    · rw [apply_givesUp hFirst]
      refine ih ?_
      obtain ⟨call', hMem, hReaches⟩ := h
      rcases List.mem_cons.mp hMem with rfl | hMem
      · exact absurd hFirst hReaches
      · exact ⟨call', hMem, hReaches⟩
    · rw [apply_unwired hHash fuel call hFirst]
      rfl

theorem lookupLive_iff_givesUp (hHash : w.hash = false) (calls : List (LookupCall Id)) :
    w.LookupLive calls ↔ ∀ call ∈ calls, call.GivesUp w := by
  constructor
  · intro hLive
    by_contra hReaches
    rw [not_forall] at hReaches
    obtain ⟨call, hReaches⟩ := hReaches
    obtain ⟨hMem, hReaches⟩ := by simpa only [Classical.not_imp] using hReaches
    exact (hLive 0).1 (applyAll_unwired hHash ⟨call, hMem, hReaches⟩)
  · intro hAll fuel
    have hInstalled : LookupCall.applyAll fuel w.installed calls = .ok w.installed :=
      applyAll_givesUp hAll
    rw [applyAll_givesUp hAll, hInstalled]
    exact ⟨by simp, by simp, rfl⟩

theorem alloc_init_iff {unit : ULong} : (MemoryCache.init unit).alloc = none ↔ unit = 0 := by
  unfold MemoryCache.alloc MemoryCache.init
  constructor
  · intro h
    split at h
    · cases h
    · rename_i hNone
      simp only at hNone
      bv_omega
  · rintro rfl
    rfl

/-- **The node table is never wired**: after `sysqos_disp_manager_init` and
`set_msg_ops` the calls of a dispatcher never reach for a function that is not
there, and work on a finite map, exactly if each of them is a `node_online` of a
dispatcher made for no nodes at all. -/
theorem lookup_live_iff (ops : IdOps Id) (tableLen : Nat) (maxNodeNum : ULong)
    (updateInterval : Int) (minRsNum : ULong) (h : 0 < tableLen) (calls : List (LookupCall Id)) :
    (init ops tableLen maxNodeNum updateInterval minRsNum h).setMsgOps.LookupLive calls ↔
      ∀ call ∈ calls, (∃ id, call = .nodeOnline id) ∧ maxNodeNum = 0 := by
  rw [lookupLive_iff_givesUp rfl]
  refine forall₂_congr fun call _ => and_congr_right fun _ => ?_
  exact alloc_init_iff

/-- The first app of a dispatcher for one app is looked up without `hash`. -/
theorem first_online_unwired :
    ¬ ∀ calls, (init IdOps.nat 1 1 0 10 (by decide)).setMsgOps.LookupLive calls := by
  intro h
  exact (h [.nodeOnline 1] 0).1 rfl

/-- A dispatcher made for no nodes turns all its apps away. -/
theorem lookup_live_without_nodes :
    (init IdOps.nat 1 0 0 10 (by decide)).setMsgOps.LookupLive [.nodeOnline 1, .nodeOnline 2] :=
  (lookup_live_iff IdOps.nat 1 0 0 10 (by decide) _).mpr (by simp)

end WiredDispatcher

end DatastorQos
