import DatastorQos.App.Node
import DatastorQos.Table.HashTable

/-!
# token_reqgrp_manager — the app side of the library

The model of `sysqos_token_reqgrp_manager.c`: the table of online nodes, the
caches, and the operations the application and the message layer call. Each
operation is one definition that runs to completion.

* The callback `token_grp_got` is recorded, in the order of the calls, in the
  `List Callback` an operation returns.
* The live `token_reqgrp_t` objects are `groups`. A new object gets an address
  never used before; `freed` keeps the objects given back to the cache as they
  were then, and no operation reads it.
* `version` counts the `__sync_fetch_and_add` on the field of that name. A
  fence is the fetched value as an `int`, its low 32 bits.
* `none` is a failed `assert`.
-/

namespace DatastorQos

open Keyed

variable {Id : Type}

/-- A call of `app_ops->token_grp_got`. -/
structure Callback where
  grp : GrpPtr
  pri : Nat
  err : QosError
  deriving DecidableEq, Repr

/-- The ring of resources a caller passes: the element named and the others, in
ring order from it. -/
structure ResourceRing (Id : Type) where
  rs     : Resource Id
  others : List (Resource Id)
  deriving DecidableEq, Repr

/-- The order in which a ring is walked: the local list head goes in right
behind the element named, so that element comes last. -/
def ResourceRing.walk (ring : ResourceRing Id) : List (Resource Id) := ring.others ++ [ring.rs]

theorem ResourceRing.reqs_ne_nil (ring : ResourceRing Id) {rips : List (TokenReq Id)}
    (hNeed : rips.map TokenReq.tokenNeed = ring.walk.reverse) : rips ≠ [] := by
  rintro rfl
  have hLength := congrArg List.length hNeed
  simp [walk] at hLength

/-- `token_reqgrp_manager_t`. -/
structure Manager (ops : IdOps Id) where
  tokenGrpCache    : MemoryCache
  resourceCache    : MemoryCache
  appNodeTable     : HashTable ops (DispatchNode Id)
  managerItemCache : MemoryCache
  version          : Nat
  groups           : GrpHeap Id
  freed            : List (TokenReqgrp Id)
  nextGrp          : GrpPtr

/-- `end_token_grps`: the callbacks for a list of settled groups. -/
def endTokenGrps (h : GrpHeap Id) (permissionList : List GrpPtr) : List Callback :=
  permissionList.filterMap fun gid =>
    (h.group? gid).map fun g => ⟨gid, g.pri, g.err⟩

namespace Manager

variable {ops : IdOps Id}

/-- `token_reqgrp_manager_init` and `set_msg_ops`. -/
def init (ops : IdOps Id) (tabLen : Nat) (maxTokenGrpNum maxResourceNum maxNodeNum : ULong)
    (h : 0 < tabLen) : Manager ops where
  tokenGrpCache    := .init maxTokenGrpNum
  resourceCache    := .init maxResourceNum
  appNodeTable     := .alloc ops (DispatchNode Id) tabLen maxNodeNum h
  managerItemCache := .init maxNodeNum
  version          := 0
  groups           := []
  freed            := []
  nextGrp          := 0

/-- The online node of an id. -/
def node? (m : Manager ops) (id : Id) : Option (DispatchNode Id) := m.appNodeTable.find id

/-- What a node operation leaves behind: the node, through the pointer the
table handed out, and memory. -/
def setNode (m : Manager ops) (id : Id) (item : DispatchNode Id) (h : GrpHeap Id) : Manager ops :=
  { m with appNodeTable := m.appNodeTable.write id fun _ => item, groups := h }

-- ---------------------------------------------------------------------------
-- Nodes come and go
-- ---------------------------------------------------------------------------

/-- `node_online`. -/
def nodeOnline (m : Manager ops) (id : Id) : Option (Manager ops) :=
  match m.managerItemCache.alloc with
  | none => some m
  | some cache =>
    let item := DispatchNode.init (BitVec.ofNat 32 m.version)
    let m := { m with managerItemCache := cache, version := m.version + 1 }
    match m.appNodeTable.insert id item with
    | none => none
    | some (table, .ok) => some { m with appNodeTable := table }
    | some (table, _) =>
      some { m with appNodeTable := table, managerItemCache := m.managerItemCache.free }

/-- `node_offline`. -/
def nodeOffline (m : Manager ops) (id : Id) : Manager ops × List Callback :=
  match m.node? id with
  | none => (m, [])
  | some item =>
    let (item, h, relative) := item.popAll m.groups []
    let m := m.setNode id item h
    let m := { m with
      appNodeTable     := (m.appNodeTable.erase id).1
      managerItemCache := m.managerItemCache.free }
    (m, endTokenGrps m.groups relative)

/-- `node_reset`. -/
def nodeReset (m : Manager ops) (id : Id) : Manager ops :=
  match m.node? id with
  | none => m
  | some item => m.setNode id item.reset m.groups

/-- `rcvd`. For an unknown node the message is not processed: after
`node_online` the `continue` leaves the `do ... while ( 0 )` loop. -/
def rcvd (m : Manager ops) (id : Id) (dta : Dispatch2App) : Option (Manager ops × List Callback) :=
  match m.node? id with
  | none => (m.nodeOnline id).map fun m => (m, [])
  | some item =>
    let (item, h, relative, isReset) := item.resourceChanged m.groups dta []
    let m := m.setNode id item h
    let m := if isReset then m.nodeReset id else m
    some (m, endTokenGrps m.groups relative)

-- ---------------------------------------------------------------------------
-- Putting
-- ---------------------------------------------------------------------------

/-- `try_to_free_to_manager_nolock`. -/
def tryToFreeToManager (m : Manager ops) (rip : TokenReq Id) (relative : List GrpPtr) :
    Manager ops × List GrpPtr :=
  match m.node? rip.tokenNeed.id with
  | none => (m, relative)
  | some item =>
    let (item, h, relative) := item.freeResource m.groups rip relative
    (m.setNode rip.tokenNeed.id item h, relative)

/-- `try_to_put_tokens`, over the requests of the group. -/
def tryToPutTokens (m : Manager ops) (relative : List GrpPtr) :
    List ReqPtr → Manager ops × List GrpPtr
  | [] => (m, relative)
  | p :: rest =>
    match m.groups.request? p with
    | some rip =>
      if rip.stat = .got then
        let (m, relative) := m.tryToFreeToManager rip relative
        m.tryToPutTokens relative rest
      else m.tryToPutTokens relative rest
    | none => m.tryToPutTokens relative rest

/-- `check_node_out_when_put`. -/
def checkNodeOutWhenPut (m : Manager ops) : List (Resource Id) → Manager ops × List Callback
  | [] => (m, [])
  | rs :: rest =>
    match m.node? rs.id with
    | some _ =>
      let (m, callbacks) := m.nodeOffline rs.id
      let (m, callbacks') := m.checkNodeOutWhenPut rest
      (m, callbacks ++ callbacks')
    | none => m.checkNodeOutWhenPut rest

/-- `token_reqgrp_exit` and the return of the object to its cache. -/
def freeGroup (m : Manager ops) (gid : GrpPtr) : Manager ops :=
  match m.groups.group? gid with
  | none => m
  | some g =>
    { m with
      resourceCache := g.tokenReqgrpExit m.resourceCache
      tokenGrpCache := m.tokenGrpCache.free
      groups        := erase TokenReqgrp.gid gid m.groups
      freed         := g :: m.freed }

/-- `put_token_grp`; `failRs` is `none` for `NULL`. -/
def putTokenGrp (m : Manager ops) (gid : GrpPtr) (failRs : Option (ResourceRing Id)) :
    Manager ops × List Callback :=
  let (m, callbacks) := m.checkNodeOutWhenPut ((failRs.map ResourceRing.walk).getD [])
  match m.groups.group? gid with
  | none => (m, callbacks)
  | some g =>
    let (m, relative) := m.tryToPutTokens [] (g.lheadReqgrp.map TokenReq.ptr)
    (m.freeGroup gid, callbacks ++ endTokenGrps m.groups relative)

-- ---------------------------------------------------------------------------
-- Getting
-- ---------------------------------------------------------------------------

/-- `try_to_alloc_from_manager_nolock`. -/
def tryToAllocFromManager (m : Manager ops) (rip : TokenReq Id) : Manager ops × QosError :=
  match m.node? rip.tokenNeed.id with
  | none =>
    let (h, err) := m.groups.toFailed rip.ptr
    ({ m with groups := h }, err)
  | some item =>
    let (item, h, err) := item.allocResource m.groups rip.needList
    (m.setNode rip.tokenNeed.id item h, err)

/-- `try_to_get_tokens`, over the requests of the group: the result is that of
the last one. -/
def tryToGetTokens (m : Manager ops) (err : QosError) :
    List (TokenReq Id) → Manager ops × QosError
  | [] => (m, err)
  | rip :: rest =>
    let (m, err) := m.tryToAllocFromManager rip
    m.tryToGetTokens err rest

/-- `check_node_in_when_get`. -/
def checkNodeInWhenGet (m : Manager ops) : List (Resource Id) → Option (Manager ops)
  | [] => some m
  | rs :: rest =>
    match m.node? rs.id with
    | some _ => m.checkNodeInWhenGet rest
    | none => (m.nodeOnline rs.id).bind (·.checkNodeInWhenGet rest)

/-- What `get_token_grp` leaves behind: its return value, the group it made,
if it got that far, and the callbacks made on the way. -/
structure GetResult (ops : IdOps Id) where
  manager   : Manager ops
  grp       : Option GrpPtr
  err       : QosError
  callbacks : List Callback

/-- `get_token_grp`. -/
def getTokenGrp (m : Manager ops) (ring : ResourceRing Id) (pri : Nat) :
    Option (GetResult ops) :=
  match m.tokenGrpCache.alloc with
  | none => some ⟨m, none, .memory, []⟩
  | some tokenGrpCache =>
    let gid := m.nextGrp
    let m := { m with tokenGrpCache := tokenGrpCache, nextGrp := gid + 1 }
    match TokenReqgrp.tokenReqgrpInit gid m.resourceCache ring.walk pri with
    | (g, resourceCache, .ok) =>
      let m := { m with resourceCache := resourceCache, groups := g :: m.groups }
      (m.checkNodeInWhenGet ring.walk).map fun m =>
        match m.tryToGetTokens .ok g.lheadReqgrp with
        | (m, .ok) => ⟨m, some gid, .ok, []⟩
        | (m, .pending) => ⟨m, some gid, .pending, []⟩
        | (m, err) =>
          let (m, callbacks) := m.putTokenGrp gid none
          ⟨m, some gid, err, callbacks⟩
    | (_, resourceCache, _) =>
      some ⟨{ m with resourceCache := resourceCache, tokenGrpCache := m.tokenGrpCache.free },
        none, .memory, []⟩

/-! ## The ways a node comes online -/

/-- What `node_online` does: there is no object for a node, the node joins the
table, or its id is there already and the object goes back. -/
inductive OnlineWay (m : Manager ops) (id : Id) : Manager ops → Prop where
  | noItem : m.managerItemCache.alloc = none → OnlineWay m id m
  | joined {cache : MemoryCache} {table : HashTable ops (DispatchNode Id)} :
      m.managerItemCache.alloc = some cache →
      m.appNodeTable.insert id (.init (BitVec.ofNat 32 m.version)) = some (table, .ok) →
      OnlineWay m id
        { m with managerItemCache := cache, version := m.version + 1, appNodeTable := table }
  | known {cache : MemoryCache} {table : HashTable ops (DispatchNode Id)} :
      m.managerItemCache.alloc = some cache →
      m.appNodeTable.insert id (.init (BitVec.ofNat 32 m.version)) = some (table, .exist) →
      OnlineWay m id
        { m with managerItemCache := cache.free, version := m.version + 1, appNodeTable := table }

theorem nodeOnline_way {m m' : Manager ops} {id : Id} (h : m.nodeOnline id = some m') :
    OnlineWay m id m' := by
  unfold nodeOnline at h
  split at h
  · rename_i hNone
    exact Option.some.inj h ▸ .noItem hNone
  · rename_i cache hAlloc
    simp only at h
    split at h
    · cases h
    · rename_i table hInsert
      exact Option.some.inj h ▸ .joined hAlloc hInsert
    · rename_i table err hNotOk hInsert
      obtain rfl : err = .exist := (HashTable.insert_cases hInsert).resolve_left hNotOk
      exact Option.some.inj h ▸ .known hAlloc hInsert

/-- What holds where nothing happens and is extended by a node that comes online
first holds of all nodes of a list. -/
theorem checkNodeInWhenGet_rule {R : Manager ops → Manager ops → Prop} (hRefl : ∀ m, R m m)
    (hStep : ∀ {m m₁ m' : Manager ops} {id : Id}, m.nodeOnline id = some m₁ → R m₁ m' → R m m')
    {rs : List (Resource Id)} {m m' : Manager ops} (h : m.checkNodeInWhenGet rs = some m') :
    R m m' := by
  induction rs generalizing m with
  | nil => exact Option.some.inj h ▸ hRefl m
  | cons rs rest ih =>
    unfold checkNodeInWhenGet at h
    split at h
    · exact ih h
    · obtain ⟨m₁, hOnline, hRest⟩ := Option.bind_eq_some_iff.mp h
      exact hStep hOnline (ih hRest)

/-! ## The ways a get goes -/

/-- A get that ran out of memory before it made a group. -/
structure GetNothing (m : Manager ops) (res : GetResult ops) : Prop where
  grp        : res.grp = none
  err        : res.err = .memory
  callbacks  : res.callbacks = []
  groups     : res.manager.groups = m.groups
  freed      : res.manager.freed = m.freed
  nodeTable  : res.manager.appNodeTable = m.appNodeTable
  version    : res.manager.version = m.version
  nextGrp_le : m.nextGrp ≤ res.manager.nextGrp

/-- A get that made group `g`: with the nodes it names online the manager is
`m₁`, and placing its requests leaves `m₂` and `err`. A failed group is put
right away. -/
structure GetMade (m : Manager ops) (ring : ResourceRing Id) (res : GetResult ops)
    (g : TokenReqgrp Id) (m₁ m₂ : Manager ops) (err : QosError) : Prop where
  fresh  : g.Fresh
  gid    : g.gid = m.nextGrp
  need   : g.lheadReqgrp.map TokenReq.tokenNeed = ring.walk.reverse
  online : ∃ caches : MemoryCache × MemoryCache,
    { m with
      tokenGrpCache := caches.1
      resourceCache := caches.2
      nextGrp       := m.nextGrp + 1
      groups        := g :: m.groups }.checkNodeInWhenGet ring.walk = some m₁
  placed : m₁.tryToGetTokens .ok g.lheadReqgrp = (m₂, err)
  result : (err = .ok ∨ err = .pending) ∧ res = ⟨m₂, some m.nextGrp, err, []⟩ ∨
    err ≠ .ok ∧ err ≠ .pending ∧
      res = ⟨(m₂.putTokenGrp m.nextGrp none).1, some m.nextGrp, err,
        (m₂.putTokenGrp m.nextGrp none).2⟩

theorem GetMade.nonempty {m : Manager ops} {ring : ResourceRing Id} {res : GetResult ops}
    {g : TokenReqgrp Id} {m₁ m₂ : Manager ops} {err : QosError}
    (h : GetMade m ring res g m₁ m₂ err) : g.lheadReqgrp ≠ [] :=
  ring.reqs_ne_nil h.need

/-- The ways a get goes, step by step: the cache of the groups is empty, or that
of the requests becomes so, or group `g` is made. -/
inductive GetWay (m : Manager ops) (ring : ResourceRing Id) (pri : Nat) : GetResult ops → Prop where
  | noGroup : m.tokenGrpCache.alloc = none → GetWay m ring pri ⟨m, none, .memory, []⟩
  | noRequest {tokenGrpCache resourceCache : MemoryCache} {g : TokenReqgrp Id} {err : QosError} :
      m.tokenGrpCache.alloc = some tokenGrpCache →
      TokenReqgrp.tokenReqgrpInit m.nextGrp m.resourceCache ring.walk pri =
        (g, resourceCache, err) → err ≠ .ok →
      GetWay m ring pri
        ⟨{ m with
            resourceCache := resourceCache
            tokenGrpCache := tokenGrpCache.free
            nextGrp       := m.nextGrp + 1 }, none, .memory, []⟩
  | made {tokenGrpCache resourceCache : MemoryCache} {res : GetResult ops} {g : TokenReqgrp Id}
      {m₁ m₂ : Manager ops} {err : QosError} :
      m.tokenGrpCache.alloc = some tokenGrpCache →
      TokenReqgrp.tokenReqgrpInit m.nextGrp m.resourceCache ring.walk pri =
        (g, resourceCache, .ok) →
      { m with
        tokenGrpCache := tokenGrpCache
        resourceCache := resourceCache
        nextGrp       := m.nextGrp + 1
        groups        := g :: m.groups }.checkNodeInWhenGet ring.walk = some m₁ →
      m₁.tryToGetTokens .ok g.lheadReqgrp = (m₂, err) →
      (err = .ok ∨ err = .pending) ∧ res = ⟨m₂, some m.nextGrp, err, []⟩ ∨
        err ≠ .ok ∧ err ≠ .pending ∧
          res = ⟨(m₂.putTokenGrp m.nextGrp none).1, some m.nextGrp, err,
            (m₂.putTokenGrp m.nextGrp none).2⟩ →
      GetWay m ring pri res

theorem getTokenGrp_way {m : Manager ops} {ring : ResourceRing Id} {pri : Nat}
    {res : GetResult ops} (h : m.getTokenGrp ring pri = some res) : GetWay m ring pri res := by
  unfold getTokenGrp at h
  split at h
  · rename_i hNone
    rw [← Option.some.inj h]
    exact .noGroup hNone
  · rename_i tokenGrpCache hAlloc
    simp only at h
    split at h
    · rename_i g cache hInit
      obtain ⟨m₁, hIn, hRes⟩ := Option.map_eq_some_iff.mp h
      obtain ⟨m₂, err, hPlaced⟩ : ∃ m₂ err, m₁.tryToGetTokens .ok g.lheadReqgrp = (m₂, err) :=
        ⟨_, _, rfl⟩
      refine .made hAlloc hInit hIn hPlaced ?_
      rw [hPlaced] at hRes
      split at hRes
      · rename_i heq
        obtain ⟨rfl, rfl⟩ := Prod.mk.inj heq
        exact Or.inl ⟨Or.inl rfl, hRes.symm⟩
      · rename_i heq
        obtain ⟨rfl, rfl⟩ := Prod.mk.inj heq
        exact Or.inl ⟨Or.inr rfl, hRes.symm⟩
      · rename_i hNotOk hNotPending heq
        obtain ⟨rfl, rfl⟩ := Prod.mk.inj heq
        exact Or.inr ⟨hNotOk, hNotPending, hRes.symm⟩
    · rename_i g cache err hErr hInit
      rw [← Option.some.inj h]
      exact .noRequest hAlloc hInit hErr

theorem getTokenGrp_cases {m : Manager ops} {ring : ResourceRing Id} {pri : Nat}
    {res : GetResult ops} (h : m.getTokenGrp ring pri = some res) :
    GetNothing m res ∨ ∃ g m₁ m₂ err, GetMade m ring res g m₁ m₂ err := by
  cases getTokenGrp_way h with
  | noGroup _ => exact Or.inl ⟨rfl, rfl, rfl, rfl, rfl, rfl, rfl, Nat.le_refl _⟩
  | noRequest _ _ _ => exact Or.inl ⟨rfl, rfl, rfl, rfl, rfl, rfl, rfl, Nat.le_succ _⟩
  | made _ hInit hIn hPlaced hRes =>
    obtain ⟨hFresh, hNeed, hGid, -⟩ := TokenReqgrp.tokenReqgrpInit_spec hInit
    exact Or.inr ⟨_, _, _, _, hFresh, hGid, hNeed, ⟨(_, _), hIn⟩, hPlaced, hRes⟩

end Manager

end DatastorQos
