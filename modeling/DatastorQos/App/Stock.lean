import DatastorQos.App.Accounting
import DatastorQos.Table.FiniteMap

/-!
# datastor_qos — what the caches of the app side have handed out

Every object comes from one of four caches: the groups, their requests, the
nodes, and the items that hold the nodes in the table.

* `Manager.SameStock` — the operations that hand out nothing and take nothing
  back;
* `Manager.Stocked` — each cache has handed out what is there, and the two
  caches of a node have handed out equally many;
* `stocked_of_run` — so it is in every state of every run, with caches of any
  size;
* `no_leaks` — the counts that follow, and that `rwinsert` always finds an item:
  the cache of the nodes is asked first, and is as large.
-/

namespace DatastorQos

open Keyed GrpHeap Runs

variable {Id : Type} {ops : IdOps Id} {fenced calm : Prop}

-- ---------------------------------------------------------------------------
-- Operations of one node
-- ---------------------------------------------------------------------------

namespace DispatchNode

/-- Serving a queue makes no group and frees none: by induction on the queue. -/
theorem pump_shape (base : DispatchBaseNode) (press : ULong) (h : GrpHeap Id) (got : List GrpPtr)
    (tokenList : List (ResourceList Id)) :
    (pump base press h got tokenList).2.2.1.shape = h.shape := by
  induction tokenList generalizing base press h got with
  | nil => rfl
  | cons rs rest ih =>
    unfold pump
    rcases base.tryAllocFromDesc_cases rs.rs.cost with ⟨-, heq⟩ | ⟨-, heq⟩
    · rw [heq]
      simp only
      rw [ih, grantFront_fst, shape_toGot]
    · rw [heq]

/-- Nor does an increase, whether it serves the queue or not. -/
theorem resourceIncreased_shape (n : DispatchNode Id) (h : GrpHeap Id) (got : List GrpPtr) :
    (n.resourceIncreased h got).2.1.shape = h.shape := by
  unfold resourceIncreased
  split
  · rfl
  · exact pump_shape _ _ _ _ _

/-- Nor does a message. -/
theorem resourceChanged_shape (n : DispatchNode Id) (h : GrpHeap Id) (dta : Dispatch2App)
    (got : List GrpPtr) : (n.resourceChanged h dta got).2.1.shape = h.shape := by
  obtain ⟨_, hEq | hEq⟩ := n.resourceChanged_cases dta h got
  · rw [hEq]
    exact resourceIncreased_shape _ h got
  · rw [hEq]

/-- Tokens are given back without their group. -/
theorem freeResource_shape (n : DispatchNode Id) (h : GrpHeap Id) (rip : TokenReq Id)
    (got : List GrpPtr) : (n.freeResource h rip got).2.1.shape = h.shape := by
  unfold freeResource
  split
  · exact resourceIncreased_shape _ h got
  · rfl

/-- Granting or queueing a request makes no group. -/
theorem allocResource_shape (n : DispatchNode Id) (h : GrpHeap Id) (rs : ResourceList Id) :
    (n.allocResource h rs).2.1.shape = h.shape := by
  by_cases hFits : n.baseNode.Fits rs.rs.cost
  · rw [allocResource_of_fits hFits, shape_toGot, shape_setNodeid]
  · rw [allocResource_of_not_fits hFits, shape_setNodeid]

/-- The groups of the requests that failed are still there. -/
theorem failAll_shape (h : GrpHeap Id) (failed : List GrpPtr) (popped : List (ResourceList Id)) :
    (failAll h failed popped).1.shape = h.shape := by
  induction popped generalizing h failed with
  | nil => rfl
  | cons rs rest ih =>
    have hFirst := shape_toFailed h rs.owner
    unfold failAll
    split
    all_goals
      rename_i heq
      rw [heq] at hFirst
      exact (ih _ _).trans hFirst

/-- Emptying a queue leaves the groups there. -/
theorem popAll_shape (n : DispatchNode Id) (h : GrpHeap Id) (failed : List GrpPtr) :
    (n.popAll h failed).2.1.shape = h.shape := by
  unfold popAll
  exact failAll_shape h failed _

end DispatchNode

namespace Manager

variable {m m₁ m' : Manager ops} {id : Id}

-- ---------------------------------------------------------------------------
-- Operations that hand out nothing
-- ---------------------------------------------------------------------------

/-- The same objects are there, and every cache is as it was. -/
structure SameStock (m m' : Manager ops) : Prop where
  shape         : m'.groups.shape = m.groups.shape
  ids           : m'.appNodeTable.size = m.appNodeTable.size
  tokenGrps     : m'.tokenGrpCache = m.tokenGrpCache
  resources     : m'.resourceCache = m.resourceCache
  managerItems  : m'.managerItemCache = m.managerItemCache
  tableItems    : m'.appNodeTable.cache = m.appNodeTable.cache

theorem SameStock.refl (m : Manager ops) : SameStock m m := ⟨rfl, rfl, rfl, rfl, rfl, rfl⟩

/-- Two operations that hand out nothing. -/
theorem SameStock.trans (a : SameStock m m₁) (b : SameStock m₁ m') : SameStock m m' :=
  ⟨b.shape.trans a.shape, b.ids.trans a.ids, b.tokenGrps.trans a.tokenGrps,
    b.resources.trans a.resources, b.managerItems.trans a.managerItems,
    b.tableItems.trans a.tableItems⟩

/-- A node that is written back is no new one. -/
theorem setNode_stock (m : Manager ops) (id : Id) (item : DispatchNode Id) {h : GrpHeap Id}
    (hShape : h.shape = m.groups.shape) : SameStock m (m.setNode id item h) :=
  ⟨hShape, m.appNodeTable.size_write id _, rfl, rfl, rfl, rfl⟩

/-- A reset hands out nothing. -/
theorem nodeReset_stock (m : Manager ops) (id : Id) : SameStock m (m.nodeReset id) := by
  unfold nodeReset
  split
  · exact .refl m
  · exact m.setNode_stock id _ rfl

/-- One request gives tokens back, but no object. -/
theorem tryToFreeToManager_stock (m : Manager ops) (r : TokenReq Id) (relative : List GrpPtr) :
    SameStock m (m.tryToFreeToManager r relative).1 := by
  unfold tryToFreeToManager
  split
  · exact .refl m
  · exact m.setNode_stock _ _ (DispatchNode.freeResource_shape _ _ _ _)

/-- All requests of a group give their tokens back before any object is freed. -/
theorem tryToPutTokens_stock (ps : List ReqPtr) (m : Manager ops) (relative : List GrpPtr) :
    SameStock m (m.tryToPutTokens relative ps).1 := by
  induction ps generalizing m relative with
  | nil => exact .refl m
  | cons p rest ih =>
    unfold tryToPutTokens
    split
    · split
      · exact (tryToFreeToManager_stock m _ relative).trans (ih _ _)
      · exact ih m relative
    · exact ih m relative

/-- Placing one request takes no object: it has its own since the group was
made. -/
theorem tryToAllocFromManager_stock (m : Manager ops) (r : TokenReq Id) :
    SameStock m (m.tryToAllocFromManager r).1 := by
  unfold tryToAllocFromManager
  split
  · exact ⟨shape_toFailed _ _, rfl, rfl, rfl, rfl, rfl⟩
  · exact m.setNode_stock _ _ (DispatchNode.allocResource_shape _ _ _)

/-- Placing all requests of a group. -/
theorem tryToGetTokens_stock (rips : List (TokenReq Id)) (m : Manager ops) (err : QosError) :
    SameStock m (m.tryToGetTokens err rips).1 := by
  induction rips generalizing m err with
  | nil => exact .refl m
  | cons r rest ih => exact (tryToAllocFromManager_stock m r).trans (ih _ _)

-- ---------------------------------------------------------------------------
-- What is handed out is there
-- ---------------------------------------------------------------------------

/-- Each cache has handed out what is there. -/
structure Stocked (maxNodeNum : ULong) (m : Manager ops) : Prop where
  managerItems : m.managerItemCache.Holds maxNodeNum m.appNodeTable.size
  tableItems   : m.appNodeTable.cache.Holds maxNodeNum m.appNodeTable.size
  tokenGrps    : ∃ unit, m.tokenGrpCache.Holds unit m.groups.length
  resources    : ∃ unit, m.resourceCache.Holds unit m.groups.reqs.length

variable {maxNodeNum : ULong}

/-- Where nothing was handed out the counts stay right. -/
theorem Stocked.congr (hs : m.Stocked maxNodeNum) (h : SameStock m m') : m'.Stocked maxNodeNum where
  managerItems := by
    rw [h.managerItems, h.ids]
    exact hs.managerItems
  tableItems   := by
    rw [h.tableItems, h.ids]
    exact hs.tableItems
  tokenGrps    := by
    rw [h.tokenGrps, length_eq_of_shape h.shape]
    exact hs.tokenGrps
  resources    := by
    rw [h.resources, length_reqs_eq_of_shape h.shape]
    exact hs.resources

/-- The cache of the nodes is asked first: where it has one, the table has an
item. -/
theorem Stocked.nodeOnline (hs : m.Stocked maxNodeNum) (id : Id) :
    ∃ m', m.nodeOnline id = some m' ∧ m'.Stocked maxNodeNum := by
  unfold Manager.nodeOnline
  split
  · exact ⟨m, rfl, hs⟩
  · rename_i cache hAlloc
    have hItem := hs.managerItems.alloc hAlloc
    have hTable : m.appNodeTable.cache.alloc.isSome := hs.tableItems.isSome_alloc_iff.mpr hItem.le
    obtain ⟨⟨table, err⟩, hInsert⟩ := Option.isSome_iff_exists.mp
      (HashTable.isSome_insert id (DispatchNode.init (BitVec.ofNat 32 m.version)) hTable)
    obtain ⟨tableCache, hTook, hKept⟩ := HashTable.cache_insert hInsert
    have hTableItem := hs.tableItems.alloc hTook
    simp only at hKept
    rcases HashTable.insert_cases hInsert with rfl | rfl
    · simp only [hInsert]
      refine ⟨_, rfl, ?_⟩
      rw [if_pos rfl] at hKept
      have hSize := HashTable.size_insert hInsert
      exact {
        managerItems := by
          rw [hSize]
          exact hItem
        tableItems   := by
          rw [hSize, hKept]
          exact hTableItem
        tokenGrps    := hs.tokenGrps
        resources    := hs.resources }
    · simp only [hInsert]
      refine ⟨_, rfl, ?_⟩
      rw [if_neg (by decide)] at hKept
      have hSize : table.size = m.appNodeTable.size :=
        HashTable.size_congr fun x => by rw [HashTable.find_insert_exist hInsert]
      exact {
        managerItems := by
          rw [hSize]
          exact hItem.free
        tableItems   := by
          rw [hSize, hKept]
          exact hTableItem.free
        tokenGrps    := hs.tokenGrps
        resources    := hs.resources }

/-- A node that leaves gives back itself and its item. -/
theorem Stocked.nodeOffline (hs : m.Stocked maxNodeNum) (id : Id) :
    (m.nodeOffline id).1.Stocked maxNodeNum := by
  unfold Manager.nodeOffline
  split
  · exact hs
  · rename_i item hItem
    have hPopped := hs.congr (m.setNode_stock id (item.popAll m.groups []).1
      (DispatchNode.popAll_shape item m.groups []))
    generalize hm₁ : m.setNode id (item.popAll m.groups []).1 (item.popAll m.groups []).2.1 = m₁
      at hPopped
    have hThere : (m₁.appNodeTable.find id).isSome := by
      rw [← hm₁, Manager.setNode, HashTable.find_write, if_pos (ops.same_refl id),
        Option.isSome_map, Option.isSome_iff_exists]
      exact ⟨item, hItem⟩
    have hSize := HashTable.size_erase hThere
    simp only [hm₁]
    exact {
      managerItems := by
        have h := hPopped.managerItems
        rw [← hSize] at h
        exact h.free
      tableItems   := by
        have h := hPopped.tableItems
        rw [← hSize] at h
        rw [HashTable.cache_erase, if_pos hThere]
        exact h.free
      tokenGrps    := hPopped.tokenGrps
      resources    := hPopped.resources }

/-- A message for an unknown id makes a node, and else hands out nothing. -/
theorem Stocked.rcvd (hs : m.Stocked maxNodeNum) (id : Id) (dta : Dispatch2App) :
    ∃ res, m.rcvd id dta = some res ∧ res.1.Stocked maxNodeNum := by
  unfold Manager.rcvd
  split
  · obtain ⟨m', hOnline, hStocked⟩ := hs.nodeOnline id
    exact ⟨_, by rw [hOnline, Option.map_some], hStocked⟩
  · rename_i item _
    have hShape := item.resourceChanged_shape m.groups dta []
    generalize item.resourceChanged m.groups dta [] = changed at hShape ⊢
    obtain ⟨item', h, relative, isReset⟩ := changed
    have hSet := hs.congr (m.setNode_stock id item' hShape)
    refine ⟨_, rfl, ?_⟩
    cases isReset with
    | true => exact hSet.congr (nodeReset_stock _ id)
    | false => exact hSet

/-- The nodes of a get come online one after the other. -/
theorem Stocked.checkNodeInWhenGet (hs : m.Stocked maxNodeNum) (rsList : List (Resource Id)) :
    ∃ m', m.checkNodeInWhenGet rsList = some m' ∧ m'.Stocked maxNodeNum := by
  induction rsList generalizing m with
  | nil => exact ⟨m, rfl, hs⟩
  | cons rs rest ih =>
    unfold Manager.checkNodeInWhenGet
    split
    · exact ih hs
    · obtain ⟨m₁, hOnline, hStocked⟩ := hs.nodeOnline rs.id
      rw [hOnline, Option.bind_some]
      exact ih hStocked

/-- A node that goes offline fails groups, but frees none. -/
theorem nodeOffline_shape (m : Manager ops) (id : Id) :
    (m.nodeOffline id).1.groups.shape = m.groups.shape := by
  unfold Manager.nodeOffline
  split
  · rfl
  · exact DispatchNode.popAll_shape _ _ _

/-- The nodes that a put reports go offline one after the other. -/
theorem Stocked.checkNodeOutWhenPut (hs : m.Stocked maxNodeNum) (rsList : List (Resource Id)) :
    (m.checkNodeOutWhenPut rsList).1.Stocked maxNodeNum ∧
      (m.checkNodeOutWhenPut rsList).1.groups.shape = m.groups.shape := by
  induction rsList generalizing m with
  | nil => exact ⟨hs, rfl⟩
  | cons rs rest ih =>
    unfold Manager.checkNodeOutWhenPut
    split
    · obtain ⟨hStocked, hShape⟩ := ih (hs.nodeOffline rs.id)
      exact ⟨hStocked, hShape.trans (m.nodeOffline_shape rs.id)⟩
    · exact ih hs

-- ---------------------------------------------------------------------------
-- Groups
-- ---------------------------------------------------------------------------

/-- A group that is freed gives back itself and all its requests. -/
theorem Stocked.freeGroup (hs : m.Stocked maxNodeNum)
    (hDistinct : Distinct TokenReqgrp.gid m.groups) (gid : GrpPtr) :
    (m.freeGroup gid).Stocked maxNodeNum := by
  unfold Manager.freeGroup
  split
  · exact hs
  · rename_i g hg
    obtain ⟨hGroups, hReqs⟩ := length_erase hDistinct hg
    obtain ⟨unit, hTokenGrps⟩ := hs.tokenGrps
    obtain ⟨unit', hResources⟩ := hs.resources
    rw [← hGroups] at hTokenGrps
    rw [← hReqs] at hResources
    exact ⟨hs.managerItems, hs.tableItems, ⟨unit, hTokenGrps.free⟩, ⟨unit', hResources.freeAll⟩⟩

/-- A put frees the group once its tokens are given back. -/
theorem Stocked.putTokenGrp (hs : m.Stocked maxNodeNum)
    (hDistinct : Distinct TokenReqgrp.gid m.groups) (gid : GrpPtr)
    (failRs : Option (ResourceRing Id)) :
    (m.putTokenGrp gid failRs).1.Stocked maxNodeNum := by
  obtain ⟨hOut, hShape⟩ := hs.checkNodeOutWhenPut ((failRs.map ResourceRing.walk).getD [])
  unfold Manager.putTokenGrp
  simp only
  split
  · exact hOut
  · rename_i g _
    have hPut := tryToPutTokens_stock (g.lheadReqgrp.map TokenReq.ptr)
      (m.checkNodeOutWhenPut ((failRs.map ResourceRing.walk).getD [])).1 []
    exact (hOut.congr hPut).freeGroup (distinct_of_shape (hPut.shape.trans hShape) hDistinct) gid

/-- A new group has its object and its requests from their caches. -/
theorem Stocked.newGroup (hs : m.Stocked maxNodeNum) {tokenGrpCache resourceCache : MemoryCache}
    {g : TokenReqgrp Id} {rsList : List (Resource Id)} {pri : Nat}
    (hAlloc : m.tokenGrpCache.alloc = some tokenGrpCache)
    (hInit : TokenReqgrp.tokenReqgrpInit m.nextGrp m.resourceCache rsList pri =
      (g, resourceCache, .ok)) :
    ({ m with
      tokenGrpCache := tokenGrpCache
      resourceCache := resourceCache
      nextGrp       := m.nextGrp + 1
      groups        := g :: m.groups } : Manager ops).Stocked maxNodeNum where
  managerItems := hs.managerItems
  tableItems   := hs.tableItems
  tokenGrps    := by
    obtain ⟨unit, hHolds⟩ := hs.tokenGrps
    exact ⟨unit, hHolds.alloc hAlloc⟩
  resources    := by
    obtain ⟨unit, hHolds⟩ := hs.resources
    refine ⟨unit, ?_⟩
    rw [reqs_cons, List.length_append, Nat.add_comm g.lheadReqgrp.length]
    exact (TokenReqgrp.tokenReqgrpInit_cache hInit).2 unit _ hHolds

/-- A get that makes no group gives back what it took. -/
theorem Stocked.noRequest (hs : m.Stocked maxNodeNum) {tokenGrpCache resourceCache : MemoryCache}
    {g : TokenReqgrp Id} {rsList : List (Resource Id)} {pri : Nat} {err : QosError}
    (hAlloc : m.tokenGrpCache.alloc = some tokenGrpCache)
    (hInit : TokenReqgrp.tokenReqgrpInit m.nextGrp m.resourceCache rsList pri =
      (g, resourceCache, err)) (hErr : err ≠ .ok) :
    ({ m with
      resourceCache := resourceCache
      tokenGrpCache := tokenGrpCache.free
      nextGrp       := m.nextGrp + 1 } : Manager ops).Stocked maxNodeNum where
  managerItems := hs.managerItems
  tableItems   := hs.tableItems
  tokenGrps    := by
    obtain ⟨unit, hHolds⟩ := hs.tokenGrps
    exact ⟨unit, (hHolds.alloc hAlloc).free⟩
  resources    := by
    obtain ⟨unit, hHolds⟩ := hs.resources
    exact ⟨unit, hHolds.congr (TokenReqgrp.tokenReqgrpInit_gives_back hInit hErr)⟩

/-- A get completes, and the group it made is there or was given back: it is put
again where it failed at once. -/
theorem Stocked.getTokenGrp (hs : m.Stocked maxNodeNum)
    (hDistinct : Distinct TokenReqgrp.gid m.groups) (hFresh : ∀ g ∈ m.groups, g.gid < m.nextGrp)
    (ring : ResourceRing Id) (pri : Nat) :
    ∃ res, m.getTokenGrp ring pri = some res ∧ res.manager.Stocked maxNodeNum := by
  obtain ⟨res, hGet⟩ : ∃ res, m.getTokenGrp ring pri = some res := by
    unfold Manager.getTokenGrp
    split
    · exact ⟨_, rfl⟩
    · rename_i tokenGrpCache hAlloc
      simp only
      split
      · rename_i g cache hInit
        obtain ⟨m₁, hIn, -⟩ := (hs.newGroup hAlloc hInit).checkNodeInWhenGet ring.walk
        rw [hIn]
        exact ⟨_, rfl⟩
      · exact ⟨_, rfl⟩
  refine ⟨res, hGet, ?_⟩
  cases getTokenGrp_way hGet with
  | noGroup _ => exact hs
  | noRequest hAlloc hInit hErr => exact hs.noRequest hAlloc hInit hErr
  | @made _ _ _ g m₁ m₂ err hAlloc hInit hIn hPlaced hRes =>
    obtain ⟨m', hIn', hStocked⟩ := (hs.newGroup hAlloc hInit).checkNodeInWhenGet ring.walk
    obtain rfl := Option.some.inj (hIn'.symm.trans hIn)
    have hPlacing := tryToGetTokens_stock g.lheadReqgrp m' .ok
    rw [hPlaced] at hPlacing
    have hStocked₂ := hStocked.congr hPlacing
    rcases hRes with ⟨-, rfl⟩ | ⟨-, -, rfl⟩
    · exact hStocked₂
    · refine hStocked₂.putTokenGrp (distinct_of_shape hPlacing.shape ?_) _ none
      rw [checkNodeInWhenGet_groups hIn]
      -- the new group is at an address no group had
      refine List.nodup_cons.mpr ⟨fun hMem => ?_, hDistinct⟩
      obtain ⟨x, hx, hGid⟩ := List.mem_map.mp hMem
      obtain ⟨-, -, hNew, -⟩ := TokenReqgrp.tokenReqgrpInit_spec hInit
      exact Nat.ne_of_lt (hFresh x hx) (hGid.trans hNew)

end Manager

-- ---------------------------------------------------------------------------
-- Runs
-- ---------------------------------------------------------------------------

open Manager

/-- Every call completes, and gives back what it does not keep. -/
theorem apply_stocked {s : AppState ops} {maxNodeNum : ULong} (hi : s.Inv fenced calm)
    (hs : s.manager.Stocked maxNodeNum) (call : ManagerCall Id) :
    ∃ res, call.apply s.manager = some res ∧ res.1.Stocked maxNodeNum := by
  have hDistinct := hi.books.sound.distinct
  cases call with
  | getTokenGrp ring pri =>
    obtain ⟨res, hGet, hStocked⟩ := hs.getTokenGrp hDistinct hi.fresh ring pri
    exact ⟨_, by rw [ManagerCall.apply, hGet, Option.map_some], hStocked⟩
  | putTokenGrp gid failRs => exact ⟨_, rfl, hs.putTokenGrp hDistinct gid failRs⟩
  | nodeOnline id =>
    obtain ⟨m', hOnline, hStocked⟩ := hs.nodeOnline id
    exact ⟨_, by rw [ManagerCall.apply, hOnline, Option.map_some], hStocked⟩
  | nodeOffline id => exact ⟨_, rfl, hs.nodeOffline id⟩
  | nodeReset id => exact ⟨_, rfl, hs.congr (nodeReset_stock _ id)⟩
  | rcvd id dta =>
    obtain ⟨res, hRcvd, hStocked⟩ := hs.rcvd id dta
    exact ⟨_, by rw [ManagerCall.apply, hRcvd, Option.map_some], hStocked⟩

variable {tabLen : Nat} {maxTokenGrpNum maxResourceNum maxNodeNum : ULong}

/-- Nothing is handed out at first. -/
theorem stocked_init (hLen : 0 < tabLen) :
    (Manager.init ops tabLen maxTokenGrpNum maxResourceNum maxNodeNum hLen).Stocked maxNodeNum where
  managerItems := by
    rw [Manager.init, HashTable.size_alloc]
    exact .init maxNodeNum
  tableItems   := by
    rw [Manager.init, HashTable.size_alloc]
    exact .init maxNodeNum
  tokenGrps    := ⟨maxTokenGrpNum, .init maxTokenGrpNum⟩
  resources    := ⟨maxResourceNum, .init maxResourceNum⟩

/-- What is handed out is there, in every state of every run. -/
theorem stocked_of_run (hLen : 0 < tabLen) {s : AppState ops} {tr : List (AppTransition ops)}
    (hRun : Run (managerSystem ops)
      ⟨.init ops tabLen maxTokenGrpNum maxResourceNum maxNodeNum hLen, []⟩ tr s) :
    s.Inv False False ∧ s.manager.Stocked maxNodeNum := by
  have hInit : (managerSystem ops).init
      ⟨.init ops tabLen maxTokenGrpNum maxResourceNum maxNodeNum hLen, []⟩ :=
    ⟨tabLen, maxTokenGrpNum, maxResourceNum, maxNodeNum, hLen, rfl⟩
  refine Run.invariant
    (I := fun s : AppState ops => s.Inv False False ∧ s.manager.Stocked maxNodeNum) ?_ hRun
    ⟨.init hInit, stocked_init hLen⟩
  rintro s a s' ⟨hInv, hStocked⟩ hStep
  refine ⟨(step_effect hInv hStep False.elim False.elim).1, ?_⟩
  obtain ⟨res, hApply, hStocked'⟩ := apply_stocked hInv hStocked a.call
  obtain rfl := Option.some.inj (hApply.symm.trans hStep.2.1)
  exact hStocked'

/-- **No leaks.** In every state of every run the four caches have handed out
what is there: as many nodes and items as the table has ids, the live groups,
their requests. No call fails the `assert` of `rwinsert`. -/
theorem no_leaks (hLen : 0 < tabLen) {s : AppState ops} {tr : List (AppTransition ops)}
    (hRun : Run (managerSystem ops)
      ⟨.init ops tabLen maxTokenGrpNum maxResourceNum maxNodeNum hLen, []⟩ tr s) :
    s.manager.managerItemCache.outstanding = s.manager.appNodeTable.size ∧
      s.manager.appNodeTable.cache.outstanding = s.manager.appNodeTable.size ∧
      s.manager.appNodeTable.size ≤ maxNodeNum.toNat ∧
      s.manager.tokenGrpCache.outstanding = s.manager.groups.length ∧
      s.manager.resourceCache.outstanding = s.manager.groups.reqs.length ∧
      ∀ call : ManagerCall Id, call.Legal s.held → (call.apply s.manager).isSome := by
  obtain ⟨hInv, hStocked⟩ := stocked_of_run hLen hRun
  obtain ⟨_, hTokenGrps⟩ := hStocked.tokenGrps
  obtain ⟨_, hResources⟩ := hStocked.resources
  refine ⟨hStocked.managerItems.outstanding_eq, hStocked.tableItems.outstanding_eq,
    hStocked.managerItems.le, hTokenGrps.outstanding_eq, hResources.outstanding_eq, ?_⟩
  intro call _
  obtain ⟨res, hApply, -⟩ := apply_stocked hInv hStocked call
  rw [hApply]
  rfl

/-- The node of both groups goes offline. -/
def afterNodeGone : AppState IdOps.nat := afterFirstPut.after (.nodeOffline 1) (by decide)

/-- After two gets on one node, the put of the first, which wakes the second, and
the end of the node: one group is out, with its request, and no node. -/
theorem no_leaks_put_and_offline :
    afterNodeGone.manager.managerItemCache.outstanding = 0 ∧
      afterNodeGone.manager.appNodeTable.cache.outstanding = 0 ∧
      afterNodeGone.manager.tokenGrpCache.outstanding = 1 ∧
      afterNodeGone.manager.resourceCache.outstanding = 1 := by
  obtain ⟨tr, hRun⟩ := run_afterSecondGet
  have hPut := managerSystem_step afterSecondGet (.putTokenGrp 0 none)
    (show 0 ∈ afterSecondGet.held by decide) (by decide)
  have hGone := managerSystem_step afterFirstPut (.nodeOffline 1) trivial (by decide)
  obtain ⟨hNodes, hItems, -, hTokenGrps, hResources, -⟩ :=
    no_leaks Nat.two_pos ((hRun.snoc hPut).snoc hGone)
  exact ⟨hNodes, hItems, hTokenGrps, hResources⟩

end DatastorQos
