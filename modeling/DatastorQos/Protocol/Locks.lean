import DatastorQos.Lib.LockOrder

/-!
# datastor_qos — the locks of both sides

What each function of the library locks, and what it does in between, as far as
that locks anything: its `Skeleton`. `m` is a manager, of an app or of a
dispatcher, and any number of them may be in one process; `i` is the chain an id
hashes to and `n` the node found under it. Branches that lock nothing are
`skip`; a spin lock is a lock taken alone. A failed `assert` ends the process,
and no skeleton goes on after it.

Callbacks into the application are made with no lock held, and may call back
into the library: `cb` is what they lock.

* `QosCalls` — the calls of the library, from any number of threads;
* `locks_never_deadlock` — whatever calls are on their way, all of them can come
  to their end;
* `node_locks_guarded` — while a thread has a manager's lock alone, as it does
  when it takes a node out of the table, nobody is inside a node.
-/

namespace DatastorQos.Locks

open LockOrder LockOrder.Skeleton Runs

inductive CacheName where
  | tableItem
  | managerItem
  | tokenGrp
  | resource
  | tokenNode
  deriving DecidableEq, Repr

/-- The locks of manager `m`. -/
inductive QosLock where
  | manager (m : Nat)
  | cache (m : Nat) (c : CacheName)
  /-- the `rwlock` of a `safe_rw_list_t` -/
  | chain (m i : Nat)
  /-- the spin lock of a `dispatch_node_t`, and the locks of its queue and base -/
  | node (m n : Nat)
  | queue (m n : Nat)
  | base (m n : Nat)
  /-- the spin lock of an `app_node_t` -/
  | appNode (m n : Nat)
  | updateCtx (m : Nat)
  deriving DecidableEq, Repr

/-- The order in which they are taken. -/
@[simp] def QosLock.rank : QosLock → Nat
  | manager _ => 0
  | chain _ _ => 1
  | cache _ _ => 2
  | node _ _ => 2
  | appNode _ _ => 2
  | updateCtx _ => 2
  | queue _ _ => 3
  | base _ _ => 3

/-- The chain an id hashes to, and the node found there. -/
structure Place where
  i : Nat
  n : Nat
  deriving DecidableEq, Repr

/-- A section that locks nothing else. -/
def under (mode : LockMode) (l : QosLock) : Skeleton QosLock := hold mode l skip

variable (m : Nat)

-- ---------------------------------------------------------------------------
-- memory_cache.c, safe_rw_list.c
-- ---------------------------------------------------------------------------

/-- `cache_alloc`; it locks again once `qos_alloc` came back. -/
def cacheAlloc (c : CacheName) : Skeleton QosLock :=
  seq (under .exclusive (.cache m c)) (alt skip (under .exclusive (.cache m c)))

def cacheFree (c : CacheName) : Skeleton QosLock := under .exclusive (.cache m c)

def rwinsert (i : Nat) : Skeleton QosLock :=
  all [cacheAlloc m .tableItem, under .exclusive (.chain m i), alt skip (cacheFree m .tableItem)]

def rwerase (i : Nat) : Skeleton QosLock :=
  seq (under .exclusive (.chain m i)) (alt (cacheFree m .tableItem) skip)

def rwfind (i : Nat) : Skeleton QosLock := under .shared (.chain m i)

/-- `for_each_do` of a table of `tabLen` chains. -/
def forEachDo (tabLen : Nat) (dofunc : Skeleton QosLock) : Skeleton QosLock :=
  all ((List.range tabLen).map fun i => hold .shared (.chain m i) (loop dofunc))

-- ---------------------------------------------------------------------------
-- sysqos_dispatch_base_node.c, sysqos_nodereq_list.c
-- ---------------------------------------------------------------------------

def isToReset (n : Nat) : Skeleton QosLock := under .shared (.base m n)

def isVersionSame (n : Nat) : Skeleton QosLock := under .shared (.base m n)

def checkUpdateTotalVersion (n : Nat) : Skeleton QosLock :=
  seq (isToReset m n)
    (alt skip (seq (isVersionSame m n) (alt skip (under .exclusive (.base m n)))))

def checkAllocFromDesc (n : Nat) : Skeleton QosLock := under .shared (.base m n)

def tryAllocFromDesc (n : Nat) : Skeleton QosLock :=
  seq (checkAllocFromDesc m n) (alt skip (under .exclusive (.base m n)))

def freeToDesc (n : Nat) : Skeleton QosLock := under .exclusive (.base m n)

def getCurrentversion (n : Nat) : Skeleton QosLock := under .shared (.base m n)

def getAlloced (n : Nat) : Skeleton QosLock := under .shared (.base m n)

def baseReset (n : Nat) : Skeleton QosLock := under .exclusive (.base m n)

def pushBack (n : Nat) : Skeleton QosLock := under .exclusive (.queue m n)

def front (n : Nat) : Skeleton QosLock := under .shared (.queue m n)

def popFront (n : Nat) : Skeleton QosLock := under .exclusive (.queue m n)

def queuePopAll (n : Nat) : Skeleton QosLock := under .exclusive (.queue m n)

def getPress (n : Nat) : Skeleton QosLock := under .shared (.queue m n)

-- ---------------------------------------------------------------------------
-- sysqos_dispatch_node.c
-- ---------------------------------------------------------------------------

/-- The loop ends where the queue is empty or its front does not fit. -/
def resourceIncreased (n : Nat) : Skeleton QosLock :=
  seq (front m n) (alt skip (hold .exclusive (.node m n)
    (all [loop (all [front m n, tryAllocFromDesc m n, popFront m n]), front m n,
      alt skip (tryAllocFromDesc m n)])))

def resourceChanged (n : Nat) : Skeleton QosLock :=
  seq (checkUpdateTotalVersion m n) (alt skip (resourceIncreased m n))

def freeResource (n : Nat) : Skeleton QosLock :=
  alt skip (seq (freeToDesc m n) (resourceIncreased m n))

def allocResource (n : Nat) : Skeleton QosLock :=
  seq (tryAllocFromDesc m n) (alt skip (hold .exclusive (.node m n)
    (seq (tryAllocFromDesc m n) (alt (pushBack m n) skip))))

def getProtocol (n : Nat) : Skeleton QosLock :=
  all [getPress m n, getCurrentversion m n, getAlloced m n]

-- ---------------------------------------------------------------------------
-- sysqos_token_reqgrp.c, sysqos_token_reqgrp_manager.c
-- ---------------------------------------------------------------------------

/-- `token_reqgrp_init`, which gives back what it took if it cannot go on. -/
def tokenReqgrpInit : Skeleton QosLock :=
  seq (loop (cacheAlloc m .resource)) (alt skip (loop (cacheFree m .resource)))

def tokenReqgrpExit : Skeleton QosLock := loop (cacheFree m .resource)

/-- `node_online` of an app; the first `cacheFree` is for a `dispatch_node_init`
that failed. -/
def nodeOnline (p : Place) : Skeleton QosLock :=
  seq (cacheAlloc m .managerItem) (alt skip (alt (cacheFree m .managerItem)
    (seq (hold .exclusive (.manager m) (rwinsert m p.i)) (alt skip (cacheFree m .managerItem)))))

def nodeOffline (p : Place) (cb : Skeleton QosLock) : Skeleton QosLock :=
  all [hold .exclusive (.manager m)
      (seq (rwfind m p.i) (alt skip (seq (queuePopAll m p.n) (rwerase m p.i)))),
    alt skip (cacheFree m .managerItem), cb]

def nodeReset (p : Place) : Skeleton QosLock :=
  hold .exclusive (.manager m) (seq (rwfind m p.i) (alt skip (baseReset m p.n)))

/-- `rcvd`; its `continue` ends the loop. -/
def rcvd (p : Place) (cb : Skeleton QosLock) : Skeleton QosLock :=
  all [hold .shared (.manager m) (seq (rwfind m p.i) (alt skip (resourceChanged m p.n))),
    alt skip (nodeOnline m p), alt skip (nodeReset m p), cb]

def checkNodeInWhenGet (rs : List Place) : Skeleton QosLock :=
  all (rs.map fun p => seq (rwfind m p.i) (alt skip (nodeOnline m p)))

def checkNodeOutWhenPut (rs : List Place) (cb : Skeleton QosLock) : Skeleton QosLock :=
  all (rs.map fun p => seq (rwfind m p.i) (alt skip (nodeOffline m p cb)))

def tryToAllocFromManager (p : Place) : Skeleton QosLock :=
  seq (rwfind m p.i) (alt skip (allocResource m p.n))

def tryToFreeToManager (p : Place) : Skeleton QosLock :=
  seq (rwfind m p.i) (alt skip (freeResource m p.n))

def tryToGetTokens (rs : List Place) : Skeleton QosLock := all (rs.map (tryToAllocFromManager m))

def tryToPutTokens (rs : List Place) : Skeleton QosLock :=
  all (rs.map fun p => alt skip (tryToFreeToManager m p))

def putTokenGrp (rs failRs : List Place) (cb : Skeleton QosLock) : Skeleton QosLock :=
  all [checkNodeOutWhenPut m failRs cb, hold .shared (.manager m) (tryToPutTokens m rs), cb,
    tokenReqgrpExit m, cacheFree m .tokenGrp]

def getTokenGrp (rs : List Place) (cb : Skeleton QosLock) : Skeleton QosLock :=
  seq (cacheAlloc m .tokenGrp) (alt skip (seq (tokenReqgrpInit m) (alt (cacheFree m .tokenGrp)
    (all [checkNodeInWhenGet m rs, hold .shared (.manager m) (tryToGetTokens m rs),
      alt skip (putTokenGrp m rs [] cb)]))))

/-- `snd_msg_buf` of an app. -/
def appSndMsgBuf (p : Place) : Skeleton QosLock :=
  hold .shared (.manager m) (seq (rwfind m p.i) (alt skip (getProtocol m p.n)))

-- ---------------------------------------------------------------------------
-- sysqos_app_node.c, sysqos_token_update.c
-- ---------------------------------------------------------------------------

def dtnAlloc (n : Nat) : Skeleton QosLock := under .exclusive (.appNode m n)

def dtnFree (n : Nat) : Skeleton QosLock := under .exclusive (.appNode m n)

def appNodeGetProtocol (n : Nat) : Skeleton QosLock := under .exclusive (.appNode m n)

/-- `update_token_quota`; the pool and the wait-increase list have no locks. -/
def updateTokenQuota (n : Nat) : Skeleton QosLock := under .exclusive (.appNode m n)

def updateTokenQuotaNew (n : Nat) : Skeleton QosLock := under .exclusive (.appNode m n)

def appNodeRcvd (n : Nat) : Skeleton QosLock := under .exclusive (.appNode m n)

def addResource : Skeleton QosLock := under .exclusive (.updateCtx m)

def clear : Skeleton QosLock := under .exclusive (.updateCtx m)

/-- `update`, whose two loops set the targets of the nodes `ns`. -/
def update (ns : List Nat) : Skeleton QosLock :=
  seq (all (ns.map (updateTokenQuotaNew m))) (clear m)

-- ---------------------------------------------------------------------------
-- sysqos_dispatch_manager.c
-- ---------------------------------------------------------------------------

/-- What a policy update comes across: the chains, the nodes it sets targets
for, and those it serves afterwards. -/
structure Round where
  tabLen : Nat
  nodes  : List Nat
  served : List Nat

/-- `try_clear_wait_increase`. The nodes it serves are a finite list here; the
loop of the source goes on for as long as somebody is first in line. -/
def tryClearWaitIncrease (served : List Nat) : Skeleton QosLock :=
  hold .shared (.manager m) (all (served.map (updateTokenQuota m)))

def updateNodesTokenQuotaNew (r : Round) : Skeleton QosLock :=
  hold .shared (.manager m) (seq (forEachDo m r.tabLen (addResource m)) (update m r.nodes))

/-- `update_policy`, with the `execute` of the fence executor. -/
def updatePolicy (r : Round) : Skeleton QosLock :=
  alt skip (seq (alt skip (updateNodesTokenQuotaNew m r)) (tryClearWaitIncrease m r.served))

/-- `node_online` of a dispatcher; the first `cacheFree` is for an `app_node_init`
that failed. -/
def dispNodeOnline (p : Place) (r : Round) : Skeleton QosLock :=
  seq (cacheAlloc m .tokenNode) (alt skip (alt (cacheFree m .tokenNode)
    (seq (hold .exclusive (.manager m) (seq (rwfind m p.i) (alt skip (rwinsert m p.i))))
      (alt (cacheFree m .tokenNode) (updatePolicy m r)))))

def dispNodeOffline (p : Place) (r : Round) : Skeleton QosLock :=
  seq (hold .exclusive (.manager m) (rwerase m p.i))
    (alt skip (seq (cacheFree m .tokenNode) (updatePolicy m r)))

/-- `node_reset` of a dispatcher; no function is ever stored in `node->reset`. -/
def dispNodeReset (p : Place) (r : Round) : Skeleton QosLock :=
  seq (hold .shared (.manager m) (rwfind m p.i)) (updatePolicy m r)

def checkOnline (p : Place) (r : Round) : Skeleton QosLock :=
  seq (rwfind m p.i) (alt skip (dispNodeOnline m p r))

def allocTokens (p : Place) (r : Round) : Skeleton QosLock :=
  seq (checkOnline m p r)
    (hold .shared (.manager m) (seq (rwfind m p.i) (alt skip (dtnAlloc m p.n))))

def freeTokens (p : Place) (r : Round) : Skeleton QosLock :=
  alt (dispNodeOffline m p r)
    (hold .shared (.manager m) (seq (rwfind m p.i) (alt skip (dtnFree m p.n))))

def resourceIncrease (r : Round) : Skeleton QosLock :=
  seq (under .shared (.manager m)) (updatePolicy m r)

def resourceReduce (r : Round) : Skeleton QosLock :=
  seq (under .shared (.manager m)) (alt skip (updatePolicy m r))

def nodeRcvd (p : Place) : Skeleton QosLock :=
  hold .shared (.manager m) (seq (rwfind m p.i) (alt skip (appNodeRcvd m p.n)))

def dispRcvd (p : Place) (r r' : Round) : Skeleton QosLock :=
  all [checkOnline m p r, nodeRcvd m p, alt skip
    (alt (seq (dispNodeReset m p r) (updatePolicy m r'))
      (alt (tryClearWaitIncrease m r'.served) (updatePolicy m r')))]

def dispSndMsgBuf (p : Place) : Skeleton QosLock :=
  hold .exclusive (.manager m) (seq (rwfind m p.i) (alt skip (appNodeGetProtocol m p.n)))

-- ---------------------------------------------------------------------------
-- Threads
-- ---------------------------------------------------------------------------

variable {m}

/-- What a thread may lock: any calls of the library, one after the other. -/
inductive QosCalls : Skeleton QosLock → Prop where
  | none : QosCalls skip
  | seq {a b : Skeleton QosLock} : QosCalls a → QosCalls b → QosCalls (.seq a b)
  -- an app
  | getTokenGrp (m : Nat) (rs : List Place) {cb : Skeleton QosLock} :
      QosCalls cb → QosCalls (getTokenGrp m rs cb)
  | putTokenGrp (m : Nat) (rs failRs : List Place) {cb : Skeleton QosLock} :
      QosCalls cb → QosCalls (putTokenGrp m rs failRs cb)
  | nodeOnline (m : Nat) (p : Place) : QosCalls (nodeOnline m p)
  | nodeOffline (m : Nat) (p : Place) {cb : Skeleton QosLock} :
      QosCalls cb → QosCalls (nodeOffline m p cb)
  | nodeReset (m : Nat) (p : Place) : QosCalls (nodeReset m p)
  | rcvd (m : Nat) (p : Place) {cb : Skeleton QosLock} : QosCalls cb → QosCalls (rcvd m p cb)
  | appSndMsgBuf (m : Nat) (p : Place) : QosCalls (appSndMsgBuf m p)
  -- a dispatcher
  | dispNodeOnline (m : Nat) (p : Place) (r : Round) : QosCalls (dispNodeOnline m p r)
  | dispNodeOffline (m : Nat) (p : Place) (r : Round) : QosCalls (dispNodeOffline m p r)
  | dispNodeReset (m : Nat) (p : Place) (r : Round) : QosCalls (dispNodeReset m p r)
  | dispRcvd (m : Nat) (p : Place) (r r' : Round) : QosCalls (dispRcvd m p r r')
  | dispSndMsgBuf (m : Nat) (p : Place) : QosCalls (dispSndMsgBuf m p)
  | allocTokens (m : Nat) (p : Place) (r : Round) : QosCalls (allocTokens m p r)
  | freeTokens (m : Nat) (p : Place) (r : Round) : QosCalls (freeTokens m p r)
  | resourceIncrease (m : Nat) (r : Round) : QosCalls (resourceIncrease m r)
  | resourceReduce (m : Nat) (r : Round) : QosCalls (resourceReduce m r)

variable {k : Nat} {mode : LockMode} {l : QosLock}

/-- All locks taken are of rank `k` or more, and in order. -/
abbrev Above (k : Nat) (s : Skeleton QosLock) : Prop := s.Ordered QosLock.rank k

@[simp] theorem above_under : Above k (under mode l) ↔ k ≤ l.rank := and_iff_left trivial

-- The functions below the managers' locks.

theorem above_cacheAlloc (h : k ≤ 2) (c : CacheName) : Above k (cacheAlloc m c) := by
  simpa [cacheAlloc] using h

theorem above_cacheFree (h : k ≤ 2) (c : CacheName) : Above k (cacheFree m c) := above_under.mpr h

theorem above_rwfind (h : k ≤ 1) (i : Nat) : Above k (rwfind m i) := above_under.mpr h

theorem above_rwinsert (h : k ≤ 1) (i : Nat) : Above k (rwinsert m i) := by
  have hCache : k ≤ 2 := Nat.le_succ_of_le h
  simp [rwinsert, above_cacheAlloc hCache, above_cacheFree hCache, h]

theorem above_rwerase (h : k ≤ 1) (i : Nat) : Above k (rwerase m i) := by
  simp [rwerase, above_cacheFree (Nat.le_succ_of_le h), h]

theorem above_forEachDo (h : k ≤ 1) (tabLen : Nat) {dofunc : Skeleton QosLock}
    (hDo : Above 2 dofunc) : Above k (forEachDo m tabLen dofunc) := by
  simp only [forEachDo, ordered_all, List.forall_mem_map, ordered_hold, ordered_loop]
  exact fun i _ => ⟨h, hDo⟩

theorem above_tryAllocFromDesc (h : k ≤ 3) (n : Nat) : Above k (tryAllocFromDesc m n) := by
  simp [tryAllocFromDesc, checkAllocFromDesc, h]

theorem above_resourceIncreased (h : k ≤ 2) (n : Nat) : Above k (resourceIncreased m n) := by
  have hQueue : k ≤ 3 := Nat.le_succ_of_le h
  simp [resourceIncreased, front, popFront, above_tryAllocFromDesc (Nat.le_refl 3), h, hQueue]

theorem above_resourceChanged (h : k ≤ 2) (n : Nat) : Above k (resourceChanged m n) := by
  have hBase : k ≤ 3 := Nat.le_succ_of_le h
  simp [resourceChanged, checkUpdateTotalVersion, isToReset, isVersionSame,
    above_resourceIncreased h, hBase]

theorem above_freeResource (h : k ≤ 2) (n : Nat) : Above k (freeResource m n) := by
  have hBase : k ≤ 3 := Nat.le_succ_of_le h
  simp [freeResource, freeToDesc, above_resourceIncreased h, hBase]

theorem above_allocResource (h : k ≤ 2) (n : Nat) : Above k (allocResource m n) := by
  have hBase : k ≤ 3 := Nat.le_succ_of_le h
  simp [allocResource, pushBack, above_tryAllocFromDesc hBase,
    above_tryAllocFromDesc (Nat.le_refl 3), h]

theorem above_getProtocol (h : k ≤ 3) (n : Nat) : Above k (getProtocol m n) := by
  simp [getProtocol, getPress, getCurrentversion, getAlloced, h]

-- ---------------------------------------------------------------------------
-- An app
-- ---------------------------------------------------------------------------

variable {cb : Skeleton QosLock}

theorem above_nodeOnline (p : Place) : Above 0 (nodeOnline m p) := by
  simp [nodeOnline, above_cacheAlloc, above_cacheFree, above_rwinsert]

theorem above_nodeOffline (p : Place) (hcb : Above 0 cb) : Above 0 (nodeOffline m p cb) := by
  simp [nodeOffline, queuePopAll, above_rwfind, above_rwerase, above_cacheFree, hcb]

theorem above_nodeReset (p : Place) : Above 0 (nodeReset m p) := by
  simp [nodeReset, baseReset, above_rwfind]

theorem above_rcvd (p : Place) (hcb : Above 0 cb) : Above 0 (rcvd m p cb) := by
  simp [rcvd, above_rwfind, above_resourceChanged, above_nodeOnline, above_nodeReset, hcb]

theorem above_putTokenGrp (rs failRs : List Place) (hcb : Above 0 cb) :
    Above 0 (putTokenGrp m rs failRs cb) := by
  simp [putTokenGrp, checkNodeOutWhenPut, tryToPutTokens, tryToFreeToManager, tokenReqgrpExit,
    above_nodeOffline, above_freeResource, above_rwfind, above_cacheFree, hcb]

theorem above_getTokenGrp (rs : List Place) (hcb : Above 0 cb) : Above 0 (getTokenGrp m rs cb) := by
  simp [getTokenGrp, tokenReqgrpInit, checkNodeInWhenGet, tryToGetTokens, tryToAllocFromManager,
    above_cacheAlloc, above_cacheFree, above_nodeOnline, above_allocResource, above_rwfind,
    above_putTokenGrp, hcb]

theorem above_appSndMsgBuf (p : Place) : Above 0 (appSndMsgBuf m p) := by
  simp [appSndMsgBuf, above_rwfind, above_getProtocol]

-- ---------------------------------------------------------------------------
-- A dispatcher
-- ---------------------------------------------------------------------------

theorem above_tryClearWaitIncrease (served : List Nat) :
    Above 0 (tryClearWaitIncrease m served) := by
  simp [tryClearWaitIncrease, updateTokenQuota]

theorem above_updateNodesTokenQuotaNew (r : Round) :
    Above 0 (updateNodesTokenQuotaNew m r) := by
  simp [updateNodesTokenQuotaNew, above_forEachDo, addResource, update, updateTokenQuotaNew, clear]

theorem above_updatePolicy (r : Round) : Above 0 (updatePolicy m r) := by
  simp [updatePolicy, above_updateNodesTokenQuotaNew, above_tryClearWaitIncrease]

theorem above_dispNodeOnline (p : Place) (r : Round) : Above 0 (dispNodeOnline m p r) := by
  simp [dispNodeOnline, above_cacheAlloc, above_cacheFree, above_rwfind, above_rwinsert,
    above_updatePolicy]

theorem above_dispNodeOffline (p : Place) (r : Round) : Above 0 (dispNodeOffline m p r) := by
  simp [dispNodeOffline, above_cacheFree, above_rwerase, above_updatePolicy]

theorem above_dispNodeReset (p : Place) (r : Round) : Above 0 (dispNodeReset m p r) := by
  simp [dispNodeReset, above_rwfind, above_updatePolicy]

theorem above_checkOnline (p : Place) (r : Round) : Above 0 (checkOnline m p r) := by
  simp [checkOnline, above_rwfind, above_dispNodeOnline]

theorem above_dispRcvd (p : Place) (r r' : Round) : Above 0 (dispRcvd m p r r') := by
  simp [dispRcvd, nodeRcvd, appNodeRcvd, above_checkOnline, above_rwfind, above_dispNodeReset,
    above_updatePolicy, above_tryClearWaitIncrease]

theorem above_allocTokens (p : Place) (r : Round) : Above 0 (allocTokens m p r) := by
  simp [allocTokens, dtnAlloc, above_checkOnline, above_rwfind]

theorem above_freeTokens (p : Place) (r : Round) : Above 0 (freeTokens m p r) := by
  simp [freeTokens, dtnFree, above_dispNodeOffline, above_rwfind]

theorem above_dispSndMsgBuf (p : Place) : Above 0 (dispSndMsgBuf m p) := by
  simp [dispSndMsgBuf, appNodeGetProtocol, above_rwfind]

/-- Every call takes its locks in order, with the callbacks made on its way. -/
theorem QosCalls.above {s : Skeleton QosLock} (h : QosCalls s) : Above 0 s := by
  induction h with
  | none => trivial
  | seq _ _ ha hb => exact ⟨ha, hb⟩
  | getTokenGrp m rs _ hcb => exact above_getTokenGrp rs hcb
  | putTokenGrp m rs failRs _ hcb => exact above_putTokenGrp rs failRs hcb
  | nodeOnline m p => exact above_nodeOnline p
  | nodeOffline m p _ hcb => exact above_nodeOffline p hcb
  | nodeReset m p => exact above_nodeReset p
  | rcvd m p _ hcb => exact above_rcvd p hcb
  | appSndMsgBuf m p => exact above_appSndMsgBuf p
  | dispNodeOnline m p r => exact above_dispNodeOnline p r
  | dispNodeOffline m p r => exact above_dispNodeOffline p r
  | dispNodeReset m p r => exact above_dispNodeReset p r
  | dispRcvd m p r r' => exact above_dispRcvd p r r'
  | dispSndMsgBuf m p => exact above_dispSndMsgBuf p
  | allocTokens m p r => exact above_allocTokens p r
  | freeTokens m p r => exact above_freeTokens p r
  | resourceIncrease m r => exact ⟨above_under.mpr (Nat.zero_le _), above_updatePolicy r⟩
  | resourceReduce m r => exact ⟨above_under.mpr (Nat.zero_le _), trivial, above_updatePolicy r⟩

-- ---------------------------------------------------------------------------
-- Nodes are visited under the lock of their manager
-- ---------------------------------------------------------------------------

/-- A node found in a table is used under the lock it was found under. -/
@[simp] def QosLock.needs : QosLock → Option QosLock
  | node m _ => some (manager m)
  | queue m _ => some (manager m)
  | base m _ => some (manager m)
  | appNode m _ => some (manager m)
  | _ => none

abbrev Inside (held : List QosLock) (s : Skeleton QosLock) : Prop := s.Guarded QosLock.needs held

variable {held : List QosLock}

@[simp] theorem inside_under : Inside held (under mode l) ↔ ∀ g ∈ l.needs, g ∈ held :=
  and_iff_left trivial

theorem inside_cacheAlloc (c : CacheName) : Inside held (cacheAlloc m c) := by
  simp [cacheAlloc]

theorem inside_cacheFree (c : CacheName) : Inside held (cacheFree m c) := by
  simp [cacheFree]

theorem inside_rwfind (i : Nat) : Inside held (rwfind m i) := by
  simp [rwfind]

theorem inside_rwinsert (i : Nat) : Inside held (rwinsert m i) := by
  simp [rwinsert, inside_cacheAlloc, inside_cacheFree]

theorem inside_rwerase (i : Nat) : Inside held (rwerase m i) := by
  simp [rwerase, inside_cacheFree]

theorem inside_tryAllocFromDesc (h : .manager m ∈ held) (n : Nat) :
    Inside held (tryAllocFromDesc m n) := by
  simp [tryAllocFromDesc, checkAllocFromDesc, h]

theorem inside_resourceIncreased (h : .manager m ∈ held) (n : Nat) :
    Inside held (resourceIncreased m n) := by
  have hNode : QosLock.manager m ∈ QosLock.node m n :: held := List.mem_cons_of_mem _ h
  simp [resourceIncreased, front, popFront, inside_tryAllocFromDesc hNode, h]

theorem inside_resourceChanged (h : .manager m ∈ held) (n : Nat) :
    Inside held (resourceChanged m n) := by
  simp [resourceChanged, checkUpdateTotalVersion, isToReset, isVersionSame,
    inside_resourceIncreased h, h]

theorem inside_freeResource (h : .manager m ∈ held) (n : Nat) :
    Inside held (freeResource m n) := by
  simp [freeResource, freeToDesc, inside_resourceIncreased h, h]

theorem inside_allocResource (h : .manager m ∈ held) (n : Nat) :
    Inside held (allocResource m n) := by
  have hNode : QosLock.manager m ∈ QosLock.node m n :: held := List.mem_cons_of_mem _ h
  simp [allocResource, pushBack, inside_tryAllocFromDesc h, inside_tryAllocFromDesc hNode, h]

theorem inside_getProtocol (h : .manager m ∈ held) (n : Nat) : Inside held (getProtocol m n) := by
  simp [getProtocol, getPress, getCurrentversion, getAlloced, h]

theorem inside_nodeOnline (p : Place) : Inside [] (nodeOnline m p) := by
  simp [nodeOnline, inside_cacheAlloc, inside_cacheFree, inside_rwinsert]

theorem inside_nodeOffline (p : Place) (hcb : Inside [] cb) : Inside [] (nodeOffline m p cb) := by
  simp [nodeOffline, queuePopAll, inside_rwfind, inside_rwerase, inside_cacheFree, hcb]

theorem inside_nodeReset (p : Place) : Inside [] (nodeReset m p) := by
  simp [nodeReset, baseReset, inside_rwfind]

theorem inside_rcvd (p : Place) (hcb : Inside [] cb) : Inside [] (rcvd m p cb) := by
  simp [rcvd, inside_rwfind, inside_resourceChanged, inside_nodeOnline, inside_nodeReset, hcb]

theorem inside_putTokenGrp (rs failRs : List Place) (hcb : Inside [] cb) :
    Inside [] (putTokenGrp m rs failRs cb) := by
  simp [putTokenGrp, checkNodeOutWhenPut, tryToPutTokens, tryToFreeToManager, tokenReqgrpExit,
    inside_nodeOffline, inside_freeResource, inside_rwfind, inside_cacheFree, hcb]

theorem inside_getTokenGrp (rs : List Place) (hcb : Inside [] cb) :
    Inside [] (getTokenGrp m rs cb) := by
  simp [getTokenGrp, tokenReqgrpInit, checkNodeInWhenGet, tryToGetTokens, tryToAllocFromManager,
    inside_cacheAlloc, inside_cacheFree, inside_nodeOnline, inside_allocResource, inside_rwfind,
    inside_putTokenGrp, hcb]

theorem inside_appSndMsgBuf (p : Place) : Inside [] (appSndMsgBuf m p) := by
  simp [appSndMsgBuf, inside_rwfind, inside_getProtocol]

theorem inside_tryClearWaitIncrease (served : List Nat) :
    Inside [] (tryClearWaitIncrease m served) := by
  simp [tryClearWaitIncrease, updateTokenQuota]

theorem inside_updatePolicy (r : Round) : Inside [] (updatePolicy m r) := by
  simp [updatePolicy, updateNodesTokenQuotaNew, forEachDo, addResource, update, updateTokenQuotaNew,
    clear, inside_tryClearWaitIncrease]

theorem inside_dispNodeOnline (p : Place) (r : Round) : Inside [] (dispNodeOnline m p r) := by
  simp [dispNodeOnline, inside_cacheAlloc, inside_cacheFree, inside_rwfind, inside_rwinsert,
    inside_updatePolicy]

theorem inside_dispNodeOffline (p : Place) (r : Round) : Inside [] (dispNodeOffline m p r) := by
  simp [dispNodeOffline, inside_cacheFree, inside_rwerase, inside_updatePolicy]

theorem inside_dispNodeReset (p : Place) (r : Round) : Inside [] (dispNodeReset m p r) := by
  simp [dispNodeReset, inside_rwfind, inside_updatePolicy]

theorem inside_checkOnline (p : Place) (r : Round) : Inside [] (checkOnline m p r) := by
  simp [checkOnline, inside_rwfind, inside_dispNodeOnline]

theorem inside_dispRcvd (p : Place) (r r' : Round) : Inside [] (dispRcvd m p r r') := by
  simp [dispRcvd, nodeRcvd, appNodeRcvd, inside_checkOnline, inside_rwfind, inside_dispNodeReset,
    inside_updatePolicy, inside_tryClearWaitIncrease]

theorem inside_allocTokens (p : Place) (r : Round) : Inside [] (allocTokens m p r) := by
  simp [allocTokens, dtnAlloc, inside_checkOnline, inside_rwfind]

theorem inside_freeTokens (p : Place) (r : Round) : Inside [] (freeTokens m p r) := by
  simp [freeTokens, dtnFree, inside_dispNodeOffline, inside_rwfind]

theorem inside_dispSndMsgBuf (p : Place) : Inside [] (dispSndMsgBuf m p) := by
  simp [dispSndMsgBuf, appNodeGetProtocol, inside_rwfind]

theorem inside_manager (mode : LockMode) : Inside [] (under mode (.manager m)) := by
  simp

/-- Every call visits nodes under the lock of their manager. -/
theorem QosCalls.inside {s : Skeleton QosLock} (h : QosCalls s) : Inside [] s := by
  induction h with
  | none => trivial
  | seq _ _ ha hb => exact ⟨ha, hb⟩
  | getTokenGrp m rs _ hcb => exact inside_getTokenGrp rs hcb
  | putTokenGrp m rs failRs _ hcb => exact inside_putTokenGrp rs failRs hcb
  | nodeOnline m p => exact inside_nodeOnline p
  | nodeOffline m p _ hcb => exact inside_nodeOffline p hcb
  | nodeReset m p => exact inside_nodeReset p
  | rcvd m p _ hcb => exact inside_rcvd p hcb
  | appSndMsgBuf m p => exact inside_appSndMsgBuf p
  | dispNodeOnline m p r => exact inside_dispNodeOnline p r
  | dispNodeOffline m p r => exact inside_dispNodeOffline p r
  | dispNodeReset m p r => exact inside_dispNodeReset p r
  | dispRcvd m p r r' => exact inside_dispRcvd p r r'
  | dispSndMsgBuf m p => exact inside_dispSndMsgBuf p
  | allocTokens m p r => exact inside_allocTokens p r
  | freeTokens m p r => exact inside_freeTokens p r
  | resourceIncrease m r => exact ⟨inside_manager _, inside_updatePolicy r⟩
  | resourceReduce m r => exact ⟨inside_manager _, trivial, inside_updatePolicy r⟩

-- ---------------------------------------------------------------------------
-- All threads
-- ---------------------------------------------------------------------------

/-- Threads that call the library. -/
def qosThreads : System (Multiset (Thread QosLock)) LockMove := lockSystem QosCalls

/-- **The locks never deadlock.** Any number of threads call any managers, also
from the callbacks made to them, and have come to any point: all of them can
run to their end. -/
theorem locks_never_deadlock {threads : Multiset (Thread QosLock)}
    (h : Reachable qosThreads threads) :
    ∃ tr done, Run qosThreads threads tr done ∧ (∀ x ∈ tr, x.act = .run) ∧ ∀ k ∈ done, k = [] :=
  can_finish (fun _ hs => hs.above) h

/-- **Nobody is inside a node** of a manager while a thread holds the manager's
lock alone. -/
theorem node_locks_guarded {k : Thread QosLock} {rest : Multiset (Thread QosLock)}
    (h : Reachable qosThreads (k ::ₘ rest)) (hHolds : k.Holds .exclusive (.manager m)) (n : Nat)
    {k' : Thread QosLock} (hk' : k' ∈ rest) (mode : LockMode) :
    ¬ k'.Holds mode (.node m n) ∧ ¬ k'.Holds mode (.queue m n) ∧ ¬ k'.Holds mode (.base m n) ∧
      ¬ k'.Holds mode (.appNode m n) := by
  have hApart : ∀ l : QosLock, l.needs = some (.manager m) → ¬ k'.Holds mode l := fun l hNeeds =>
    guarded_apart (fun _ hs => QosCalls.inside hs) h hHolds hNeeds hk'
  exact ⟨hApart _ rfl, hApart _ rfl, hApart _ rfl, hApart _ rfl⟩

section TwoThreads

/-- One thread takes a node offline, and another one waits to get its message
out. -/
theorem exists_two_threads : ∃ k k' : Thread QosLock, Reachable qosThreads (k ::ₘ k' ::ₘ 0) ∧
    k.Holds .exclusive (.manager 0) ∧ k'.Wants .shared (.manager 0) := by
  have hStart : qosThreads.step 0 .start ([.todo (nodeReset 0 ⟨1, 2⟩)] ::ₘ 0) :=
    .start (.nodeReset 0 ⟨1, 2⟩)
  have hLock : qosThreads.step ([.todo (nodeReset 0 ⟨1, 2⟩)] ::ₘ 0) .run
      ([.todo (seq (rwfind 0 1) (alt skip (baseReset 0 2))),
        .unlock .exclusive (.manager 0)] ::ₘ 0) :=
    .lock ⟨by simp [Thread.Holds], by simp [Thread.Holds], by simp⟩
  have hNext : qosThreads.step ([.todo (seq (rwfind 0 1) (alt skip (baseReset 0 2))),
      .unlock .exclusive (.manager 0)] ::ₘ 0) .start _ := .start (.appSndMsgBuf 0 ⟨1, 2⟩)
  have hRun := ((Run.nil.snoc hStart).snoc hLock).snoc hNext
  rw [Multiset.cons_swap] at hRun
  exact ⟨_, _, ⟨0, _, rfl, hRun⟩, by simp [Thread.Holds], _, [], rfl⟩

theorem locks_never_deadlock_two_threads : ∃ k k' : Thread QosLock,
    k'.Wants .shared (.manager 0) ∧
      ∃ tr done, Run qosThreads (k ::ₘ k' ::ₘ 0) tr done ∧ ∀ x ∈ done, x = [] := by
  obtain ⟨k, k', hReach, -, hWants⟩ := exists_two_threads
  obtain ⟨tr, done, hRun, -, hDone⟩ := locks_never_deadlock hReach
  exact ⟨k, k', hWants, tr, done, hRun, hDone⟩

theorem node_locks_guarded_two_threads : ∃ k k' : Thread QosLock,
    k.Holds .exclusive (.manager 0) ∧ ¬ k'.Holds .exclusive (.base 0 2) := by
  obtain ⟨k, k', hReach, hHolds, -⟩ := exists_two_threads
  exact ⟨k, k', hHolds,
    (node_locks_guarded hReach hHolds 2 (Multiset.mem_cons_self k' 0) .exclusive).2.2.1⟩

end TwoThreads

end DatastorQos.Locks
