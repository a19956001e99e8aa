import DatastorQos.App.Stock

/-!
# datastor_qos — a group on its way out

`put_token_grp` gives the tokens of a group back first and the group itself
last. In between the group is still there, but nothing leads to it any more: no
queue holds a request of it. So no operation can tell whether it is there.

* `GrpHeap.without`, `Manager.without` — what is left without some groups;
* `Manager.Unqueued` — no queue holds a request of theirs;
* one lemma for each operation: it does without them what it does with them.

The caches of the groups and their requests count the groups on their way out,
and a get asks them. Apart from a get nothing reads the caches or `freed`, so
`without` puts any in their place.
-/

namespace DatastorQos

open Keyed GrpHeap

variable {Id : Type} {gids : List GrpPtr}

-- ---------------------------------------------------------------------------
-- Memory
-- ---------------------------------------------------------------------------

/-- The other groups. -/
def GrpHeap.without (h : GrpHeap Id) (gids : List GrpPtr) : GrpHeap Id :=
  h.filter fun g => decide (g.gid ∉ gids)

namespace GrpHeap

variable {h : GrpHeap Id} {p : ReqPtr} {gid : GrpPtr}

@[simp] theorem without_nil (h : GrpHeap Id) : h.without [] = h := by
  simp [without]

/-- Leaving out one more group is giving it back first. -/
theorem without_cons (h : GrpHeap Id) (gid : GrpPtr) (gids : List GrpPtr) :
    h.without (gid :: gids) = without (erase TokenReqgrp.gid gid h) gids := by
  unfold without erase
  rw [List.filter_filter]
  refine List.filter_congr fun g _ => ?_
  simp [Bool.and_comm]

/-- A group that is not on its way out stays. -/
theorem without_cons_of_new {g : TokenReqgrp Id} (hg : g.gid ∉ gids) (h : GrpHeap Id) :
    without (g :: h) gids = g :: h.without gids := by
  simp [without, hg]

/-- The other groups are found as they were. -/
theorem group?_without (hp : gid ∉ gids) (h : GrpHeap Id) :
    group? (h.without gids) gid = group? h gid :=
  lookup_filter (P := fun k => decide (k ∉ gids)) (decide_eq_true hp) h

/-- What is found is not on its way out. -/
theorem not_mem_of_group?_without {g : TokenReqgrp Id} (hg : group? (h.without gids) gid = some g) :
    gid ∉ gids := by
  have hKept := (List.mem_filter.mp (mem_of_lookup hg)).2
  rw [key_of_lookup hg] at hKept
  exact of_decide_eq_true hKept

/-- Writing to a group and leaving groups out commute. -/
theorem without_modify {f : TokenReqgrp Id → TokenReqgrp Id} (hf : ∀ g, (f g).gid = g.gid)
    (h : GrpHeap Id) (gid : GrpPtr) :
    modify TokenReqgrp.gid gid f (h.without gids) = without (modify TokenReqgrp.gid gid f h) gids :=
  modify_filter (P := fun k => decide (k ∉ gids)) hf h

/-- The requests of the other groups are found as they were. -/
theorem request?_without (hp : p.grp ∉ gids) (h : GrpHeap Id) :
    request? (h.without gids) p = request? h p := by
  unfold request?
  rw [group?_without hp]

/-- A request is marked with its node alike. -/
theorem setNodeid_without (h : GrpHeap Id) (p : ReqPtr) (nodeid : BitVec 32) :
    (h.without gids).setNodeid p nodeid = (h.setNodeid p nodeid).without gids :=
  without_modify (f := fun g => g.setNodeid p.idx nodeid) (fun _ => rfl) h p.grp

/-- A grant to one of the other groups, and what it answers. -/
theorem toGot_without (hp : p.grp ∉ gids) (h : GrpHeap Id) :
    (h.without gids).toGot p = ((h.toGot p).1.without gids, (h.toGot p).2) := by
  unfold toGot
  rw [group?_without hp]
  split
  · rw [without_modify (f := fun g => (g.toGot p.idx).1) fun g => g.toGot_gid p.idx]
  · rfl

/-- A failure of one of the other groups, and what it answers. -/
theorem toFailed_without (hp : p.grp ∉ gids) (h : GrpHeap Id) :
    (h.without gids).toFailed p = ((h.toFailed p).1.without gids, (h.toFailed p).2) := by
  unfold toFailed
  rw [group?_without hp]
  split
  · rw [without_modify (f := fun g => (g.toFailed p.idx).1) fun g => g.toFailed_gid p.idx]
  · rfl

end GrpHeap

/-- The verdicts told to the other groups are the same. -/
theorem endTokenGrps_without {l : List GrpPtr} (hl : ∀ gid ∈ l, gid ∉ gids) (h : GrpHeap Id) :
    endTokenGrps (h.without gids) l = endTokenGrps h l := by
  unfold endTokenGrps
  exact List.filterMap_congr fun gid hgid => by rw [group?_without (hl gid hgid)]

-- ---------------------------------------------------------------------------
-- One node
-- ---------------------------------------------------------------------------

/-- The queue of the node holds no request of the groups. -/
def DispatchNode.Unqueued (gids : List GrpPtr) (n : DispatchNode Id) : Prop :=
  ∀ rs ∈ n.lheadNodereq.tokenList, rs.owner.grp ∉ gids

/-- An operation of a node cannot tell whether the groups are there: without
them it does the same, queues none of their requests and collects none of them. -/
structure Skips (gids : List GrpPtr) (h : GrpHeap Id)
    (op : GrpHeap Id → DispatchNode Id × GrpHeap Id × List GrpPtr) : Prop where
  same     : op (h.without gids) = ((op h).1, (op h).2.1.without gids, (op h).2.2)
  unqueued : (op h).1.Unqueued gids
  got      : ∀ gid ∈ (op h).2.2, gid ∉ gids

namespace DispatchNode

variable {n : DispatchNode Id} {rs : ResourceList Id} {h : GrpHeap Id} {got : List GrpPtr}

/-- The grant at the front of a queue. -/
theorem grantFront_without {owner : ReqPtr} (hOwner : owner.grp ∉ gids) (h : GrpHeap Id)
    (got : List GrpPtr) :
    grantFront (h.without gids) owner got =
      ((grantFront h owner got).1.without gids, (grantFront h owner got).2) := by
  unfold grantFront
  rw [toGot_without hOwner]
  generalize h.toGot owner = res
  obtain ⟨h', err⟩ := res
  cases err <;> rfl

/-- A grant collects the owner's group at most. -/
theorem mem_of_mem_grantFront {owner : ReqPtr} {gid : GrpPtr}
    (hgid : gid ∈ (grantFront h owner got).2) : gid = owner.grp ∨ gid ∈ got := by
  unfold grantFront at hgid
  split at hgid
  · exact List.mem_cons.mp hgid
  · exact List.mem_cons.mp hgid
  · exact Or.inr hgid

/-- By induction on the queue: no front request is one of theirs. -/
theorem pump_without {tokenList : List (ResourceList Id)}
    (hOwners : ∀ rs ∈ tokenList, rs.owner.grp ∉ gids) (base : DispatchBaseNode) (press : ULong)
    (h : GrpHeap Id) (got : List GrpPtr) :
    pump base press (h.without gids) got tokenList =
      ((pump base press h got tokenList).1, (pump base press h got tokenList).2.1,
        (pump base press h got tokenList).2.2.1.without gids,
        (pump base press h got tokenList).2.2.2) := by
  induction tokenList generalizing base press h got with
  | nil => rfl
  | cons rs rest ih =>
    obtain ⟨hOwner, hRest⟩ := List.forall_mem_cons.mp hOwners
    unfold pump
    rcases base.tryAllocFromDesc_cases rs.rs.cost with ⟨-, heq⟩ | ⟨-, heq⟩
    · simp only [heq, grantFront_without hOwner]
      exact ih hRest _ _ _ _
    · simp only [heq]

/-- What the pump leaves in the queue was there, and what it collects was, too. -/
theorem pump_from (base : DispatchBaseNode) (press : ULong) (h : GrpHeap Id) (got : List GrpPtr)
    (tokenList : List (ResourceList Id)) :
    (∀ rs ∈ (pump base press h got tokenList).2.1.tokenList, rs ∈ tokenList) ∧
      ∀ gid ∈ (pump base press h got tokenList).2.2.2,
        gid ∈ got ∨ ∃ rs ∈ tokenList, rs.owner.grp = gid := by
  induction tokenList generalizing base press h got with
  | nil => exact ⟨fun _ hrs => hrs, fun _ hgid => Or.inl hgid⟩
  | cons rs rest ih =>
    unfold pump
    rcases base.tryAllocFromDesc_cases rs.rs.cost with ⟨-, heq⟩ | ⟨-, heq⟩
    · rw [heq]
      obtain ⟨hQueue, hGot⟩ := ih (base.chargeSection rs.rs.cost) (press - rs.rs.cost)
        (grantFront h rs.owner got).1 (grantFront h rs.owner got).2
      refine ⟨fun x hx => List.mem_cons_of_mem _ (hQueue x hx), fun gid hgid => ?_⟩
      rcases hGot gid hgid with hgid | ⟨x, hx, hOwner⟩
      · rcases mem_of_mem_grantFront hgid with rfl | hgid
        · exact Or.inr ⟨rs, List.mem_cons_self, rfl⟩
        · exact Or.inl hgid
      · exact Or.inr ⟨x, List.mem_cons_of_mem _ hx, hOwner⟩
    · rw [heq]
      exact ⟨fun _ hx => hx, fun _ hgid => Or.inl hgid⟩

/-- Serving a queue that holds none of their requests. -/
theorem resourceIncreased_skips (hn : n.Unqueued gids) (hGot : ∀ gid ∈ got, gid ∉ gids)
    (h : GrpHeap Id) : Skips gids h fun h => n.resourceIncreased h got := by
  unfold resourceIncreased
  split
  · exact ⟨rfl, hn, hGot⟩
  · obtain ⟨hQueue, hFrom⟩ :=
      pump_from n.baseNode n.lheadNodereq.press h got n.lheadNodereq.tokenList
    refine ⟨?_, fun rs hrs => hn rs (hQueue rs hrs), fun gid hgid => ?_⟩
    · simp only [pump_without hn]
    · rcases hFrom gid hgid with hgid | ⟨rs, hrs, rfl⟩
      · exact hGot gid hgid
      · exact hn rs hrs

/-- Freeing tokens, which may serve the queue. -/
theorem freeResource_skips (hn : n.Unqueued gids) (hGot : ∀ gid ∈ got, gid ∉ gids)
    (h : GrpHeap Id) (rip : TokenReq Id) : Skips gids h fun h => n.freeResource h rip got := by
  unfold freeResource
  split
  · exact resourceIncreased_skips
      (n := { n with baseNode := n.baseNode.freeToDesc rip.tokenNeed.cost }) hn hGot h
  · exact ⟨rfl, hn, hGot⟩

/-- A message, which may serve the queue and ask for a reset. -/
theorem resourceChanged_without (hn : n.Unqueued gids) (h : GrpHeap Id) (dta : Dispatch2App) :
    n.resourceChanged (h.without gids) dta [] =
        ((n.resourceChanged h dta []).1, (n.resourceChanged h dta []).2.1.without gids,
          (n.resourceChanged h dta []).2.2.1, (n.resourceChanged h dta []).2.2.2) ∧
      ∀ gid ∈ (n.resourceChanged h dta []).2.2.1, gid ∉ gids := by
  have hUpdated : (n.updated dta).Unqueued gids := hn
  have hSkips := resourceIncreased_skips hUpdated (List.forall_mem_nil _) h
  unfold updated at hSkips
  unfold resourceChanged
  simp only
  split
  · exact ⟨by simp only [hSkips.same], hSkips.got⟩
  · exact ⟨rfl, by simp⟩

/-- Failing requests of other groups, one after the other. -/
theorem failAll_without {popped : List (ResourceList Id)}
    (hOwners : ∀ rs ∈ popped, rs.owner.grp ∉ gids) (h : GrpHeap Id) {failed : List GrpPtr}
    (hFailed : ∀ gid ∈ failed, gid ∉ gids) :
    failAll (h.without gids) failed popped =
        ((failAll h failed popped).1.without gids, (failAll h failed popped).2) ∧
      ∀ gid ∈ (failAll h failed popped).2, gid ∉ gids := by
  induction popped generalizing h failed with
  | nil => exact ⟨rfl, hFailed⟩
  | cons rs rest ih =>
    obtain ⟨hOwner, hRest⟩ := List.forall_mem_cons.mp hOwners
    unfold failAll
    rw [toFailed_without hOwner]
    generalize h.toFailed rs.owner = res
    obtain ⟨h', err⟩ := res
    cases err with
    | failedNode => exact ih hRest h' (List.forall_mem_cons.mpr ⟨hOwner, hFailed⟩)
    | _ => exact ih hRest h' hFailed

/-- Emptying a queue that holds none of their requests. -/
theorem popAll_skips (hn : n.Unqueued gids) (h : GrpHeap Id) :
    Skips gids h fun h => n.popAll h [] := by
  have hOwners : ∀ rs ∈ n.lheadNodereq.popAll.2, rs.owner.grp ∉ gids := by
    rw [NodereqList.popAll_popped]
    exact hn
  obtain ⟨hSame, hFailed⟩ := failAll_without hOwners h (List.forall_mem_nil _)
  refine ⟨?_, ?_, hFailed⟩
  · unfold popAll
    simp only [hSame]
  · intro rs hrs
    rw [popAll_tokenList] at hrs
    cases hrs

/-- A request of another group is granted or queued alike. -/
theorem allocResource_without (hOwner : rs.owner.grp ∉ gids) (n : DispatchNode Id)
    (h : GrpHeap Id) :
    n.allocResource (h.without gids) rs =
      ((n.allocResource h rs).1, (n.allocResource h rs).2.1.without gids,
        (n.allocResource h rs).2.2) := by
  by_cases hFits : n.baseNode.Fits rs.rs.cost
  · simp only [allocResource_of_fits hFits, setNodeid_without, toGot_without hOwner]
  · simp only [allocResource_of_not_fits hFits, setNodeid_without]

end DispatchNode

-- ---------------------------------------------------------------------------
-- The manager
-- ---------------------------------------------------------------------------

variable {ops : IdOps Id}

/-- The manager without some groups, whatever its caches of the groups and their
requests have handed out and whatever was given back. -/
def Manager.without (m : Manager ops) (gids : List GrpPtr) (caches : MemoryCache × MemoryCache)
    (freed : List (TokenReqgrp Id)) : Manager ops :=
  { m with
    tokenGrpCache := caches.1
    resourceCache := caches.2
    groups        := m.groups.without gids
    freed         := freed }

/-- No queue of an online node holds a request of the groups. -/
def Manager.Unqueued (gids : List GrpPtr) (m : Manager ops) : Prop :=
  ∀ id n, m.node? id = some n → n.Unqueued gids

namespace Manager

variable {m m' : Manager ops} {id : Id} {caches : MemoryCache × MemoryCache}
  {freed : List (TokenReqgrp Id)}

theorem node?_without (m : Manager ops) (id : Id) :
    (m.without gids caches freed).node? id = m.node? id := rfl

theorem groups_without (m : Manager ops) :
    (m.without gids caches freed).groups = m.groups.without gids := rfl

/-- What is found after a node was written back. -/
theorem node?_setNode (m : Manager ops) (id : Id) (item : DispatchNode Id) (h : GrpHeap Id)
    (x : Id) :
    (m.setNode id item h).node? x =
      if ops.Same id x then (m.node? x).map fun _ => item else m.node? x :=
  HashTable.find_write

/-- Writing back a node whose queue holds none of their requests. -/
theorem Unqueued.setNode (hm : m.Unqueued gids) {item : DispatchNode Id}
    (hItem : item.Unqueued gids) (h : GrpHeap Id) : (m.setNode id item h).Unqueued gids := by
  intro x n hn
  rw [node?_setNode] at hn
  split at hn
  · obtain ⟨_, -, rfl⟩ := Option.map_eq_some_iff.mp hn
    exact hItem
  · exact hm x n hn

/-- A node comes online alike: the groups play no part. -/
theorem nodeOnline_without (m : Manager ops) (id : Id) :
    (m.without gids caches freed).nodeOnline id =
      (m.nodeOnline id).map (·.without gids caches freed) := by
  have hCache : (m.without gids caches freed).managerItemCache = m.managerItemCache := rfl
  have hTable : (m.without gids caches freed).appNodeTable = m.appNodeTable := rfl
  have hVersion : (m.without gids caches freed).version = m.version := rfl
  unfold nodeOnline
  rw [hCache]
  cases m.managerItemCache.alloc with
  | none => rfl
  | some cache =>
    simp only [hTable, hVersion]
    cases m.appNodeTable.insert id (.init (BitVec.ofNat 32 m.version)) with
    | none => rfl
    | some res =>
      obtain ⟨table, err⟩ := res
      cases err <;> rfl

/-- A node goes offline with the same callbacks, since its queue held none of
their requests. -/
theorem nodeOffline_without (hm : m.Unqueued gids) (id : Id) :
    (m.without gids caches freed).nodeOffline id =
      ((m.nodeOffline id).1.without gids caches freed, (m.nodeOffline id).2) := by
  unfold nodeOffline
  rw [node?_without]
  cases hItem : m.node? id with
  | none => rfl
  | some item =>
    have hSkips := DispatchNode.popAll_skips (hm id item hItem) m.groups
    simp only
    rw [groups_without, hSkips.same]
    exact congrArg (Prod.mk _) (endTokenGrps_without hSkips.got _)

/-- A reset reads no group. -/
theorem nodeReset_without (m : Manager ops) (id : Id) :
    (m.without gids caches freed).nodeReset id = (m.nodeReset id).without gids caches freed := by
  unfold nodeReset
  rw [node?_without]
  cases m.node? id <;> rfl

/-- A message has the same callbacks, with the reset it may ask for. -/
theorem rcvd_without (hm : m.Unqueued gids) (id : Id) (dta : Dispatch2App) :
    (m.without gids caches freed).rcvd id dta =
      (m.rcvd id dta).map fun res => (res.1.without gids caches freed, res.2) := by
  unfold rcvd
  rw [node?_without]
  cases hItem : m.node? id with
  | none =>
    simp only [nodeOnline_without, Option.map_map]
    rfl
  | some item =>
    obtain ⟨hSame, hGot⟩ := DispatchNode.resourceChanged_without (hm id item hItem) m.groups dta
    simp only
    rw [groups_without, hSame]
    generalize item.resourceChanged m.groups dta [] = changed at hGot
    obtain ⟨item', h, relative, isReset⟩ := changed
    simp only [Option.map_some, Option.some.injEq, Prod.mk.injEq]
    cases isReset with
    | true =>
      simp only [if_true]
      have hReset : ((m.setNode id item' h).without gids caches freed).nodeReset id =
          ((m.setNode id item' h).nodeReset id).without gids caches freed :=
        nodeReset_without _ id
      refine ⟨hReset, ?_⟩
      have hGroups := congrArg Manager.groups hReset
      exact (congrArg (endTokenGrps · relative) hGroups).trans (endTokenGrps_without hGot _)
    | false => exact ⟨rfl, endTokenGrps_without hGot h⟩

/-! ## Putting -/

/-- What a loop over the requests of a group leaves behind without some groups,
`res'`, and with them, `res`. -/
structure Passes (gids : List GrpPtr) (caches : MemoryCache × MemoryCache)
    (freed : List (TokenReqgrp Id)) (res' res : Manager ops × List GrpPtr) : Prop where
  same     : res' = (res.1.without gids caches freed, res.2)
  unqueued : res.1.Unqueued gids
  got      : ∀ gid ∈ res.2, gid ∉ gids

/-- One request gives its tokens back. -/
theorem tryToFreeToManager_passes (caches : MemoryCache × MemoryCache)
    (freed : List (TokenReqgrp Id)) (hm : m.Unqueued gids) (rip : TokenReq Id)
    {relative : List GrpPtr} (hGot : ∀ gid ∈ relative, gid ∉ gids) :
    Passes gids caches freed ((m.without gids caches freed).tryToFreeToManager rip relative)
      (m.tryToFreeToManager rip relative) := by
  unfold tryToFreeToManager
  rw [node?_without]
  cases hItem : m.node? rip.tokenNeed.id with
  | none => exact ⟨rfl, hm, hGot⟩
  | some item =>
    have hSkips := DispatchNode.freeResource_skips (hm _ item hItem) hGot m.groups rip
    simp only
    rw [groups_without, hSkips.same]
    exact ⟨rfl, hm.setNode hSkips.unqueued _, hSkips.got⟩

/-- All requests of a group that stays give their tokens back, one after the
other. -/
theorem tryToPutTokens_passes (caches : MemoryCache × MemoryCache)
    (freed : List (TokenReqgrp Id)) (hm : m.Unqueued gids) {ps : List ReqPtr}
    (hps : ∀ p ∈ ps, p.grp ∉ gids) {relative : List GrpPtr}
    (hGot : ∀ gid ∈ relative, gid ∉ gids) :
    Passes gids caches freed ((m.without gids caches freed).tryToPutTokens relative ps)
      (m.tryToPutTokens relative ps) := by
  induction ps generalizing m relative with
  | nil => exact ⟨rfl, hm, hGot⟩
  | cons p rest ih =>
    obtain ⟨hp, hRest⟩ := List.forall_mem_cons.mp hps
    have hReq : (m.without gids caches freed).groups.request? p = m.groups.request? p :=
      request?_without hp m.groups
    unfold tryToPutTokens
    rw [hReq]
    split
    · rename_i rip _
      split
      · have hFirst := tryToFreeToManager_passes caches freed hm rip hGot
        rw [hFirst.same]
        exact ih hFirst.unqueued hRest hFirst.got
      · exact ih hm hRest hGot
    · exact ih hm hRest hGot

/-- The group that is freed joins those that are left out. -/
theorem freeGroup_without (m : Manager ops) {gid : GrpPtr} (hgid : gid ∉ gids)
    {g : TokenReqgrp Id} (hg : group? m.groups gid = some g) :
    (m.without gids caches freed).freeGroup gid =
      m.without (gid :: gids) (caches.1.free, g.tokenReqgrpExit caches.2) (g :: freed) := by
  have hGroup : (m.without gids caches freed).groups.group? gid = some g :=
    (group?_without hgid m.groups).trans hg
  unfold freeGroup
  rw [hGroup]
  unfold without
  simp only [without_cons]
  congr 1
  unfold GrpHeap.without Keyed.erase
  rw [List.filter_filter, List.filter_filter]
  exact List.filter_congr fun _ _ => Bool.and_comm _ _

/-- Once it is freed nobody has to leave it out. -/
theorem without_freeGroup (m : Manager ops) {gid : GrpPtr} {g : TokenReqgrp Id}
    (hg : group? m.groups gid = some g) :
    (m.freeGroup gid).without gids caches freed = m.without (gid :: gids) caches freed := by
  unfold freeGroup
  rw [hg]
  unfold without
  simp only [without_cons]

/-! ## Getting -/

/-- A node that comes online has an empty queue. -/
theorem Unqueued.nodeOnline (hm : m.Unqueued gids) (h : m.nodeOnline id = some m') :
    m'.Unqueued gids := by
  cases nodeOnline_way h with
  | noItem _ => exact hm
  | joined _ hInsert =>
    intro x n hn
    have hFind := hn.symm.trans (HashTable.find_insert (x := x) hInsert).2
    split at hFind
    · obtain rfl := Option.some.inj hFind
      exact fun rs hrs => nomatch hrs
    · exact hm x n hFind.symm
  | known _ hInsert =>
    intro x n hn
    exact hm x n ((HashTable.find_insert_exist hInsert).symm.trans hn)

/-- The nodes of a get come online alike. -/
theorem checkNodeInWhenGet_without (m : Manager ops) (rsList : List (Resource Id)) :
    (m.without gids caches freed).checkNodeInWhenGet rsList =
      (m.checkNodeInWhenGet rsList).map (·.without gids caches freed) := by
  induction rsList generalizing m with
  | nil => rfl
  | cons rs rest ih =>
    unfold checkNodeInWhenGet
    rw [node?_without]
    cases m.node? rs.id with
    | some item => exact ih m
    | none =>
      simp only [nodeOnline_without]
      cases m.nodeOnline rs.id with
      | none => rfl
      | some m₁ => exact ih m₁

/-- They come with empty queues. -/
theorem Unqueued.checkNodeInWhenGet (hm : m.Unqueued gids) {rsList : List (Resource Id)}
    (h : m.checkNodeInWhenGet rsList = some m') : m'.Unqueued gids :=
  checkNodeInWhenGet_rule (R := fun m m' => m.Unqueued gids → m'.Unqueued gids)
    (fun _ h => h) (fun hOnline hRest hm => hRest (hm.nodeOnline hOnline)) h hm

/-- One request of another group is placed alike, and queues none of theirs. -/
theorem tryToAllocFromManager_without (caches : MemoryCache × MemoryCache)
    (freed : List (TokenReqgrp Id)) (hm : m.Unqueued gids) {rip : TokenReq Id}
    (hrip : rip.tokenGrp ∉ gids) :
    (m.without gids caches freed).tryToAllocFromManager rip =
        ((m.tryToAllocFromManager rip).1.without gids caches freed,
          (m.tryToAllocFromManager rip).2) ∧
      (m.tryToAllocFromManager rip).1.Unqueued gids := by
  unfold tryToAllocFromManager
  rw [node?_without]
  cases hItem : m.node? rip.tokenNeed.id with
  | none =>
    simp only [groups_without, toFailed_without (p := rip.ptr) hrip]
    exact ⟨rfl, hm⟩
  | some item =>
    have hOwner : rip.needList.owner.grp ∉ gids := hrip
    simp only [groups_without, DispatchNode.allocResource_without hOwner]
    refine ⟨rfl, hm.setNode ?_ _⟩
    by_cases hFits : item.baseNode.Fits rip.needList.rs.cost
    · rw [DispatchNode.allocResource_of_fits hFits]
      exact hm _ item hItem
    · rw [DispatchNode.allocResource_of_not_fits hFits]
      exact List.forall_mem_append.mpr
        ⟨hm _ item hItem, List.forall_mem_singleton.mpr hrip⟩

/-- All requests of another group are placed alike, one after the other. -/
theorem tryToGetTokens_without (caches : MemoryCache × MemoryCache)
    (freed : List (TokenReqgrp Id)) (hm : m.Unqueued gids) {rips : List (TokenReq Id)}
    (hrips : ∀ rip ∈ rips, rip.tokenGrp ∉ gids) (err : QosError) :
    (m.without gids caches freed).tryToGetTokens err rips =
        ((m.tryToGetTokens err rips).1.without gids caches freed,
          (m.tryToGetTokens err rips).2) ∧
      (m.tryToGetTokens err rips).1.Unqueued gids := by
  induction rips generalizing m err with
  | nil => exact ⟨rfl, hm⟩
  | cons rip rest ih =>
    obtain ⟨hrip, hRest⟩ := List.forall_mem_cons.mp hrips
    obtain ⟨hSame, hUnqueued⟩ := tryToAllocFromManager_without caches freed hm hrip
    unfold tryToGetTokens
    rw [hSame]
    exact ih hUnqueued hRest _

end Manager

end DatastorQos
