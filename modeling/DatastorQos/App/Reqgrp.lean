import DatastorQos.Lib.Keyed
import DatastorQos.Table.MemoryCache

/-!
# token_reqgrp — a group of token requests and its verdict

The model of `sysqos_token_reqgrp.c`. A group asks for tokens on several nodes
at once. Each of its requests leaves `init` once, to `got` or to `failed`; the
one that brings `req_pending_nr` to zero settles the group's verdict.

`to_got` and `to_failed` are built from the atomic steps of the source
(`casStat`, `subPending`, the write of `failed_exist`, the write of `err`), so
that the interleaving model in `ReqgrpConcurrent` runs the very same pieces.

`req_pending_nr` and `req_total_nr` are `Int`: a group whose request count does
not fit an `int` is out of scope.
-/

namespace DatastorQos

open Keyed

/-- The address of a `token_reqgrp_t`. -/
abbrev GrpPtr := Nat

/-- `app_token_stat_t`. -/
inductive AppTokenStat where
  | init
  | got
  | failed
  deriving DecidableEq, Repr

/-- `token_req_t`. `idx` is its place among the requests of its group; with
`tokenGrp` it stands for the request's address. -/
structure TokenReq (Id : Type) where
  idx       : Nat
  stat      : AppTokenStat
  nodeid    : BitVec 32
  tokenGrp  : GrpPtr
  tokenNeed : Resource Id
  deriving DecidableEq, Repr

/-- The address of a `token_req_t`. -/
structure ReqPtr where
  grp : GrpPtr
  idx : Nat
  deriving DecidableEq, Repr

/-- `token_reqgrp_t`, at address `gid`. -/
structure TokenReqgrp (Id : Type) where
  gid          : GrpPtr
  lheadReqgrp  : List (TokenReq Id)
  reqPendingNr : Int
  reqTotalNr   : Int
  pri          : Nat
  err          : QosError
  failedExist  : Bool
  deriving DecidableEq, Repr

variable {Id : Type}

def TokenReq.ptr (r : TokenReq Id) : ReqPtr := ⟨r.tokenGrp, r.idx⟩

namespace TokenReqgrp

-- ---------------------------------------------------------------------------
-- Atomic steps
-- ---------------------------------------------------------------------------

def request? (g : TokenReqgrp Id) (idx : Nat) : Option (TokenReq Id) :=
  lookup TokenReq.idx idx g.lheadReqgrp

def setStat (g : TokenReqgrp Id) (idx : Nat) (stat : AppTokenStat) : TokenReqgrp Id :=
  { g with lheadReqgrp := modify TokenReq.idx idx (fun r => { r with stat := stat }) g.lheadReqgrp }

/-- `_to_got` / `_to_fail`: compare-and-swap the request's `stat` away from
`app_token_stat_init`. -/
def casStat (g : TokenReqgrp Id) (idx : Nat) (stat : AppTokenStat) : TokenReqgrp Id × Bool :=
  match g.request? idx with
  | some r => if r.stat = .init then (g.setStat idx stat, true) else (g, false)
  | none => (g, false)

/-- `__sync_sub_and_fetch(&token_grp->req_pending_nr, 1)`; the fetched value is
the new `reqPendingNr`. -/
def subPending (g : TokenReqgrp Id) : TokenReqgrp Id :=
  { g with reqPendingNr := g.reqPendingNr - 1 }

def setFailedExist (g : TokenReqgrp Id) : TokenReqgrp Id := { g with failedExist := true }

def setErr (g : TokenReqgrp Id) (err : QosError) : TokenReqgrp Id := { g with err := err }

/-- `rip->Nodeid = item->fence_id`. -/
def setNodeid (g : TokenReqgrp Id) (idx : Nat) (nodeid : BitVec 32) : TokenReqgrp Id :=
  { g with
    lheadReqgrp := modify TokenReq.idx idx (fun r => { r with nodeid := nodeid }) g.lheadReqgrp }

/-- What `to_got` reads off `failed_exist` once the last request is resolved. -/
def verdictFlag (g : TokenReqgrp Id) : QosError :=
  if g.failedExist then .failedNode else .ok

/-- `to_got`. -/
def toGot (g : TokenReqgrp Id) (idx : Nat) : TokenReqgrp Id × QosError :=
  match g.casStat idx .got with
  | (g, true) =>
    let g := g.subPending
    if g.reqPendingNr = 0 then
      let err := g.verdictFlag
      (g.setErr err, err)
    else (g, .pending)
  | (g, false) => (g, .pending)

/-- `to_failed`. -/
def toFailed (g : TokenReqgrp Id) (idx : Nat) : TokenReqgrp Id × QosError :=
  match g.setFailedExist.casStat idx .failed with
  | (g, true) =>
    let g := g.subPending
    if g.reqPendingNr = 0 then (g.setErr .failedNode, .failedNode)
    else (g, .pending)
  | (g, false) => (g, .pending)

-- ---------------------------------------------------------------------------
-- Creation and destruction
-- ---------------------------------------------------------------------------

/-- `fill_normal_val` and `fill_token_grp_func`. -/
def fillNormalVal (gid : GrpPtr) (pri : Nat) : TokenReqgrp Id where
  gid          := gid
  lheadReqgrp  := []
  reqPendingNr := 0
  reqTotalNr   := 0
  pri          := pri
  err          := .pending
  failedExist  := false

/-- `alloc_token`: a zeroed request from the cache, `NULL` when it is empty. -/
def allocToken (g : TokenReqgrp Id) (resourceCache : MemoryCache) (rs : Resource Id) :
    Option (TokenReq Id × MemoryCache) :=
  resourceCache.alloc.map fun cache =>
    ({ idx       := g.lheadReqgrp.length
       stat      := .init
       nodeid    := 0
       tokenGrp  := g.gid
       tokenNeed := rs }, cache)

/-- `list_add(&resource->list_reqgrp, &token_grp->lhead_reqgrp)` and the two
increments: the newest request is the first of the list. -/
def addReq (g : TokenReqgrp Id) (r : TokenReq Id) : TokenReqgrp Id :=
  { g with
    lheadReqgrp  := r :: g.lheadReqgrp
    reqTotalNr   := g.reqTotalNr + 1
    reqPendingNr := g.reqPendingNr + 1 }

/-- `init_rip_list_by_rs_list`: one request for each element of the resource
list, in its order, until the cache is empty. -/
def initRipListByRsList (g : TokenReqgrp Id) (resourceCache : MemoryCache) :
    List (Resource Id) → TokenReqgrp Id × MemoryCache × QosError
  | [] => (g, resourceCache, .ok)
  | rs :: rest =>
    match g.allocToken resourceCache rs with
    | some (r, cache) => (g.addReq r).initRipListByRsList cache rest
    | none => (g, resourceCache, .memory)

/-- `clear_token_grp_resource`: every request goes back to the cache. -/
def clearTokenGrpResource (g : TokenReqgrp Id) (resourceCache : MemoryCache) : MemoryCache :=
  g.lheadReqgrp.foldl (fun cache _ => cache.free) resourceCache

/-- `token_reqgrp_init`, for the object at `gid`. -/
def tokenReqgrpInit (gid : GrpPtr) (resourceCache : MemoryCache) (rsList : List (Resource Id))
    (pri : Nat) : TokenReqgrp Id × MemoryCache × QosError :=
  match (fillNormalVal gid pri).initRipListByRsList resourceCache rsList with
  | (g, cache, .ok) => (g, cache, .ok)
  | (g, cache, err) => ({ g with lheadReqgrp := [] }, g.clearTokenGrpResource cache, err)

/-- `token_reqgrp_exit`. -/
def tokenReqgrpExit (g : TokenReqgrp Id) (resourceCache : MemoryCache) : MemoryCache :=
  g.clearTokenGrpResource resourceCache

-- ---------------------------------------------------------------------------
-- Projections of the atomic steps
-- ---------------------------------------------------------------------------

/-- How many requests are still in `init`. -/
def initNr (g : TokenReqgrp Id) : Nat := g.lheadReqgrp.countP fun r => r.stat = .init

@[simp] theorem setStat_gid (g : TokenReqgrp Id) (idx : Nat) (s : AppTokenStat) :
    (g.setStat idx s).gid = g.gid := rfl
@[simp] theorem setStat_reqPendingNr (g : TokenReqgrp Id) (idx : Nat) (s : AppTokenStat) :
    (g.setStat idx s).reqPendingNr = g.reqPendingNr := rfl
@[simp] theorem setStat_failedExist (g : TokenReqgrp Id) (idx : Nat) (s : AppTokenStat) :
    (g.setStat idx s).failedExist = g.failedExist := rfl
@[simp] theorem setStat_err (g : TokenReqgrp Id) (idx : Nat) (s : AppTokenStat) :
    (g.setStat idx s).err = g.err := rfl
@[simp] theorem setStat_pri (g : TokenReqgrp Id) (idx : Nat) (s : AppTokenStat) :
    (g.setStat idx s).pri = g.pri := rfl

@[simp] theorem subPending_lheadReqgrp (g : TokenReqgrp Id) :
    g.subPending.lheadReqgrp = g.lheadReqgrp := rfl
@[simp] theorem subPending_reqPendingNr (g : TokenReqgrp Id) :
    g.subPending.reqPendingNr = g.reqPendingNr - 1 := rfl
@[simp] theorem subPending_failedExist (g : TokenReqgrp Id) :
    g.subPending.failedExist = g.failedExist := rfl
@[simp] theorem subPending_err (g : TokenReqgrp Id) : g.subPending.err = g.err := rfl

@[simp] theorem setFailedExist_lheadReqgrp (g : TokenReqgrp Id) :
    g.setFailedExist.lheadReqgrp = g.lheadReqgrp := rfl
@[simp] theorem setFailedExist_reqPendingNr (g : TokenReqgrp Id) :
    g.setFailedExist.reqPendingNr = g.reqPendingNr := rfl
@[simp] theorem setFailedExist_failedExist (g : TokenReqgrp Id) :
    g.setFailedExist.failedExist = true := rfl
@[simp] theorem setFailedExist_err (g : TokenReqgrp Id) : g.setFailedExist.err = g.err := rfl

@[simp] theorem setErr_lheadReqgrp (g : TokenReqgrp Id) (e : QosError) :
    (g.setErr e).lheadReqgrp = g.lheadReqgrp := rfl
@[simp] theorem setErr_reqPendingNr (g : TokenReqgrp Id) (e : QosError) :
    (g.setErr e).reqPendingNr = g.reqPendingNr := rfl
@[simp] theorem setErr_failedExist (g : TokenReqgrp Id) (e : QosError) :
    (g.setErr e).failedExist = g.failedExist := rfl
@[simp] theorem setErr_err (g : TokenReqgrp Id) (e : QosError) : (g.setErr e).err = e := rfl

theorem request?_setStat (g : TokenReqgrp Id) (idx idx' : Nat) (s : AppTokenStat) :
    (g.setStat idx s).request? idx' =
      if idx' = idx then (g.request? idx').map (fun r => { r with stat := s })
      else g.request? idx' :=
  lookup_modify (f := fun r : TokenReq Id => { r with stat := s }) (fun _ => rfl)
    g.lheadReqgrp

/-- A request that leaves `init` is one fewer in `init`. -/
theorem initNr_setStat {g : TokenReqgrp Id} (hl : Distinct TokenReq.idx g.lheadReqgrp)
    {idx : Nat} {r : TokenReq Id} (hr : g.request? idx = some r) (hInit : r.stat = .init)
    {s : AppTokenStat} (hs : s ≠ .init) : (g.setStat idx s).initNr + 1 = g.initNr := by
  have := countP_modify (p := fun r : TokenReq Id => decide (r.stat = .init))
    (f := fun r => { r with stat := s }) hl hr
  simp only [hInit, hs, decide_true, decide_false, if_true, Bool.false_eq_true, if_false] at this
  exact this

/-- The compare-and-swap either moves a request out of `init` or does nothing. -/
theorem casStat_cases (g : TokenReqgrp Id) (idx : Nat) (s : AppTokenStat) :
    (∃ r, g.request? idx = some r ∧ r.stat = .init ∧ g.casStat idx s = (g.setStat idx s, true)) ∨
    ((∀ r, g.request? idx = some r → r.stat ≠ .init) ∧ g.casStat idx s = (g, false)) := by
  unfold casStat
  cases h : g.request? idx with
  | none => right; exact ⟨by simp, rfl⟩
  | some r =>
    by_cases hInit : r.stat = .init
    · left; exact ⟨r, rfl, hInit, by simp [hInit]⟩
    · right; exact ⟨by simpa using hInit, by simp [hInit]⟩

@[simp] theorem toGot_gid (g : TokenReqgrp Id) (idx : Nat) : (g.toGot idx).1.gid = g.gid := by
  unfold toGot
  rcases g.casStat_cases idx .got with ⟨_, -, -, h⟩ | ⟨-, h⟩ <;> rw [h]
  simp only
  split <;> rfl

@[simp] theorem toFailed_gid (g : TokenReqgrp Id) (idx : Nat) :
    (g.toFailed idx).1.gid = g.gid := by
  unfold toFailed
  rcases g.setFailedExist.casStat_cases idx .failed with ⟨_, -, -, h⟩ | ⟨-, h⟩ <;> rw [h]
  · simp only
    split <;> rfl
  · rfl

@[simp] theorem setStat_length (g : TokenReqgrp Id) (idx : Nat) (s : AppTokenStat) :
    (g.setStat idx s).lheadReqgrp.length = g.lheadReqgrp.length := List.length_map _

@[simp] theorem toGot_length (g : TokenReqgrp Id) (idx : Nat) :
    (g.toGot idx).1.lheadReqgrp.length = g.lheadReqgrp.length := by
  unfold toGot
  rcases g.casStat_cases idx .got with ⟨_, -, -, h⟩ | ⟨-, h⟩ <;> rw [h]
  simp only
  split <;> simp

@[simp] theorem toFailed_length (g : TokenReqgrp Id) (idx : Nat) :
    (g.toFailed idx).1.lheadReqgrp.length = g.lheadReqgrp.length := by
  unfold toFailed
  rcases g.setFailedExist.casStat_cases idx .failed with ⟨_, -, -, h⟩ | ⟨-, h⟩ <;> rw [h]
  · simp only
    split <;> simp
  · simp

/-- `to_got` returns a verdict or `QOS_ERROR_PENDING`. -/
theorem toGot_err (g : TokenReqgrp Id) (idx : Nat) :
    (g.toGot idx).2 = .pending ∨ (g.toGot idx).2 = .ok ∨ (g.toGot idx).2 = .failedNode := by
  unfold toGot
  rcases g.casStat_cases idx .got with ⟨_, -, -, h⟩ | ⟨-, h⟩ <;> rw [h] <;> simp only
  · split
    · unfold verdictFlag
      split <;> simp
    · simp
  · simp

/-- `to_failed` returns `QOS_ERROR_FAILEDNODE` or `QOS_ERROR_PENDING`. -/
theorem toFailed_err (g : TokenReqgrp Id) (idx : Nat) :
    (g.toFailed idx).2 = .pending ∨ (g.toFailed idx).2 = .failedNode := by
  unfold toFailed
  rcases g.setFailedExist.casStat_cases idx .failed with ⟨_, -, -, h⟩ | ⟨-, h⟩ <;> rw [h] <;>
    simp only
  · split <;> simp
  · simp

-- ---------------------------------------------------------------------------
-- A freshly initialised group
-- ---------------------------------------------------------------------------

/-- What `token_reqgrp_init` leaves behind when it succeeds: every request in
`init`, its own `idx` each, and the two counters equal to their number. -/
structure Fresh (g : TokenReqgrp Id) : Prop where
  distinct   : Distinct TokenReq.idx g.lheadReqgrp
  idx_lt     : ∀ r ∈ g.lheadReqgrp, r.idx < g.lheadReqgrp.length
  stat_init  : ∀ r ∈ g.lheadReqgrp, r.stat = .init
  owner      : ∀ r ∈ g.lheadReqgrp, r.tokenGrp = g.gid
  pending_eq : g.reqPendingNr = g.lheadReqgrp.length
  err_eq     : g.err = .pending
  no_failed  : g.failedExist = false

theorem fresh_fillNormalVal (gid : GrpPtr) (pri : Nat) :
    (fillNormalVal gid pri : TokenReqgrp Id).Fresh where
  distinct   := List.nodup_nil
  idx_lt     := by simp [fillNormalVal]
  stat_init  := by simp [fillNormalVal]
  owner      := by simp [fillNormalVal]
  pending_eq := rfl
  err_eq     := rfl
  no_failed  := rfl

/-- One more request keeps a group fresh. -/
theorem Fresh.addReq {g : TokenReqgrp Id} (h : g.Fresh) {cache cache' : MemoryCache}
    {rs : Resource Id} {r : TokenReq Id} (hr : g.allocToken cache rs = some (r, cache')) :
    (g.addReq r).Fresh := by
  simp only [allocToken, Option.map_eq_some_iff] at hr
  obtain ⟨_, -, hr⟩ := hr
  obtain ⟨rfl, -⟩ := Prod.mk.inj hr
  constructor
  · refine List.nodup_cons.mpr ⟨fun hmem => ?_, h.distinct⟩
    obtain ⟨r', hr', heq⟩ := List.mem_map.mp hmem
    have := h.idx_lt r' hr'
    simp only at heq
    omega
  · simp only [TokenReqgrp.addReq, List.mem_cons, List.length_cons]
    rintro r (rfl | hr)
    · exact Nat.lt_succ_self _
    · exact Nat.lt_succ_of_lt (h.idx_lt r hr)
  · simp only [TokenReqgrp.addReq, List.mem_cons]
    rintro r (rfl | hr)
    · rfl
    · exact h.stat_init r hr
  · simp only [TokenReqgrp.addReq, List.mem_cons]
    rintro r (rfl | hr)
    · rfl
    · exact h.owner r hr
  · simp [TokenReqgrp.addReq, h.pending_eq]
  · exact h.err_eq
  · exact h.no_failed

theorem Fresh.initRipListByRsList {g g' : TokenReqgrp Id} (h : g.Fresh)
    {cache cache' : MemoryCache} {rsList : List (Resource Id)} {err : QosError}
    (heq : g.initRipListByRsList cache rsList = (g', cache', err)) : g'.Fresh := by
  induction rsList generalizing g cache with
  | nil =>
    obtain ⟨rfl, -, -⟩ := Prod.mk.inj heq
    exact h
  | cons rs rest ih =>
    rw [TokenReqgrp.initRipListByRsList] at heq
    split at heq
    · rename_i r cache₁ hr
      exact ih (h.addReq hr) heq
    · obtain ⟨rfl, -⟩ := Prod.mk.inj heq
      exact h

/-- A successful initialisation makes one request of each resource, the last
resource first. -/
theorem initRipListByRsList_need {g g' : TokenReqgrp Id} {cache cache' : MemoryCache}
    {rsList : List (Resource Id)}
    (heq : g.initRipListByRsList cache rsList = (g', cache', .ok)) :
    g'.lheadReqgrp.map TokenReq.tokenNeed =
        rsList.reverse ++ g.lheadReqgrp.map TokenReq.tokenNeed ∧
      g'.gid = g.gid ∧ g'.pri = g.pri := by
  induction rsList generalizing g cache with
  | nil =>
    obtain ⟨rfl, -⟩ := Prod.mk.inj heq
    exact ⟨by simp, rfl, rfl⟩
  | cons rs rest ih =>
    rw [TokenReqgrp.initRipListByRsList] at heq
    split at heq
    · rename_i r cache₁ hr
      obtain ⟨hNeed, hGid, hPri⟩ := ih heq
      simp only [allocToken, Option.map_eq_some_iff] at hr
      obtain ⟨_, -, hr⟩ := hr
      obtain ⟨rfl, -⟩ := Prod.mk.inj hr
      exact ⟨by rw [hNeed]; simp [TokenReqgrp.addReq], hGid, hPri⟩
    · simp at heq

/-- **`token_reqgrp_init`**: on success the group is fresh and holds one request
for each resource of the list. -/
theorem tokenReqgrpInit_spec {gid : GrpPtr} {cache cache' : MemoryCache}
    {rsList : List (Resource Id)} {pri : Nat} {g : TokenReqgrp Id}
    (h : tokenReqgrpInit gid cache rsList pri = (g, cache', .ok)) :
    g.Fresh ∧ g.lheadReqgrp.map TokenReq.tokenNeed = rsList.reverse ∧
      g.gid = gid ∧ g.pri = pri := by
  unfold tokenReqgrpInit at h
  split at h
  · rename_i g₁ cache₁ heq
    obtain ⟨rfl, -⟩ := Prod.mk.inj h
    obtain ⟨hNeed, hGid, hPri⟩ := initRipListByRsList_need heq
    exact ⟨(fresh_fillNormalVal gid pri).initRipListByRsList heq,
      by simpa [fillNormalVal] using hNeed, hGid, hPri⟩
  · rename_i hne _
    simp only [Prod.mk.injEq] at h
    exact absurd h.2.2 (by rintro rfl; simp_all)

/-- A request is taken from the cache for each resource, until there is none
left. -/
theorem initRipListByRsList_cache {g g' : TokenReqgrp Id} {cache cache' : MemoryCache}
    {rsList : List (Resource Id)} {err : QosError}
    (heq : g.initRipListByRsList cache rsList = (g', cache', err)) :
    ∃ n, g'.lheadReqgrp.length = g.lheadReqgrp.length + n ∧ cache.Took cache' n ∧
      ∀ unit k, cache.Holds unit k → cache'.Holds unit (k + n) := by
  induction rsList generalizing g cache with
  | nil =>
    obtain ⟨rfl, rfl, -⟩ := Prod.mk.inj heq
    exact ⟨0, rfl, .refl _, fun _ _ h => h⟩
  | cons rs rest ih =>
    rw [TokenReqgrp.initRipListByRsList] at heq
    split at heq
    · rename_i r cache₁ hr
      obtain ⟨n, hLength, hTook, hHolds⟩ := ih heq
      obtain ⟨_, hAlloc, hr⟩ := Option.map_eq_some_iff.mp hr
      obtain ⟨-, rfl⟩ := Prod.mk.inj hr
      refine ⟨1 + n, ?_, (MemoryCache.Took.alloc hAlloc).trans hTook, fun unit k h => ?_⟩
      · rw [hLength, TokenReqgrp.addReq, List.length_cons, Nat.add_assoc]
      · rw [← Nat.add_assoc]
        exact hHolds unit (k + 1) (h.alloc hAlloc)
    · obtain ⟨rfl, rfl, -⟩ := Prod.mk.inj heq
      exact ⟨0, rfl, .refl _, fun _ _ h => h⟩

/-- A group that is made has its requests from the cache, -/
theorem tokenReqgrpInit_cache {gid : GrpPtr} {cache cache' : MemoryCache}
    {rsList : List (Resource Id)} {pri : Nat} {g : TokenReqgrp Id}
    (h : tokenReqgrpInit gid cache rsList pri = (g, cache', .ok)) :
    cache.Took cache' g.lheadReqgrp.length ∧
      ∀ unit k, cache.Holds unit k → cache'.Holds unit (k + g.lheadReqgrp.length) := by
  unfold tokenReqgrpInit at h
  split at h
  · rename_i g₁ cache₁ heq
    obtain ⟨rfl, rfl, -⟩ := Prod.mk.inj h
    obtain ⟨n, hLength, hTook, hHolds⟩ := initRipListByRsList_cache heq
    rw [hLength, show (fillNormalVal gid pri : TokenReqgrp Id).lheadReqgrp.length + n = n from
      Nat.zero_add n]
    exact ⟨hTook, hHolds⟩
  · rename_i hne _
    simp only [Prod.mk.injEq] at h
    exact absurd h.2.2 (by rintro rfl; simp_all)

/-- and one that is not gives back those it took. -/
theorem tokenReqgrpInit_gives_back {gid : GrpPtr} {cache cache' : MemoryCache}
    {rsList : List (Resource Id)} {pri : Nat} {g : TokenReqgrp Id} {err : QosError}
    (h : tokenReqgrpInit gid cache rsList pri = (g, cache', err)) (hErr : err ≠ .ok) :
    cache.Took cache' 0 := by
  unfold tokenReqgrpInit at h
  split at h
  · exact absurd (Prod.mk.inj (Prod.mk.inj h).2).2.symm hErr
  · rename_i g₁ cache₁ err₁ _ heq
    obtain ⟨-, rfl, -⟩ := Prod.mk.inj h
    obtain ⟨n, hLength, hTook, -⟩ := initRipListByRsList_cache heq
    refine MemoryCache.Took.freeAll (l := g₁.lheadReqgrp) ?_
    rwa [hLength, show (fillNormalVal gid pri : TokenReqgrp Id).lheadReqgrp.length + n = n from
      Nat.zero_add n, Nat.zero_add]

/-- In a fresh group every request is pending. -/
theorem Fresh.initNr_eq {g : TokenReqgrp Id} (h : g.Fresh) :
    g.initNr = g.lheadReqgrp.length := by
  rw [initNr, List.countP_eq_length]
  intro r hr
  simpa using h.stat_init r hr

-- ---------------------------------------------------------------------------
-- One call after another
-- ---------------------------------------------------------------------------

/-- What holds of a group between two calls: the counter counts the requests in
`init`, `failed_exist` says whether one has failed, and `err` is the verdict as
soon as no request is left in `init`. -/
structure Sound (g : TokenReqgrp Id) : Prop where
  distinct   : Distinct TokenReq.idx g.lheadReqgrp
  owner      : ∀ r ∈ g.lheadReqgrp, r.tokenGrp = g.gid
  pending_eq : g.reqPendingNr = g.initNr
  failed_iff : g.failedExist = true ↔ ∃ r ∈ g.lheadReqgrp, r.stat = .failed
  err_eq     : g.err = if g.initNr = 0 then g.verdictFlag else .pending

theorem Sound.nodup_ptr {g : TokenReqgrp Id} (h : g.Sound) :
    (g.lheadReqgrp.map TokenReq.ptr).Nodup := by
  refine List.Nodup.of_map ReqPtr.idx ?_
  rw [List.map_map]
  exact h.distinct

theorem Fresh.sound {g : TokenReqgrp Id} (h : g.Fresh) (hne : g.lheadReqgrp ≠ []) : g.Sound where
  distinct   := h.distinct
  owner      := h.owner
  pending_eq := by rw [h.pending_eq, h.initNr_eq]
  failed_iff := by
    rw [h.no_failed]
    constructor
    · intro hFalse
      cases hFalse
    · rintro ⟨r, hr, hFailed⟩
      rw [h.stat_init r hr] at hFailed
      cases hFailed
  err_eq     := by
    rw [h.initNr_eq, if_neg fun hz => hne (List.length_eq_zero_iff.mp hz)]
    exact h.err_eq

theorem verdictFlag_ne_pending (g : TokenReqgrp Id) : g.verdictFlag ≠ .pending := by
  unfold verdictFlag
  split <;> simp

/-- What a `to_got` or `to_failed` call on a request in `init` leaves behind,
and what it returns. -/
structure Resolved (g : TokenReqgrp Id) (idx : Nat) (s : AppTokenStat) (g' : TokenReqgrp Id)
    (err : QosError) : Prop where
  sound    : g'.Sound
  reqs_eq  : g'.lheadReqgrp =
    modify TokenReq.idx idx (fun r => { r with stat := s }) g.lheadReqgrp
  gid_eq   : g'.gid = g.gid
  pri_eq   : g'.pri = g.pri
  initNr_eq : g'.initNr + 1 = g.initNr
  err_eq   : err = if g'.initNr = 0 then g'.err else .pending

theorem mem_setStat_failed {g : TokenReqgrp Id} {idx : Nat} {r : TokenReq Id}
    (hr : g.request? idx = some r) (hInit : r.stat = .init)
    (hDistinct : Distinct TokenReq.idx g.lheadReqgrp) (s : AppTokenStat) :
    (∃ r ∈ (g.setStat idx s).lheadReqgrp, r.stat = .failed) ↔
      (∃ r ∈ g.lheadReqgrp, r.stat = .failed) ∨ s = .failed := by
  constructor
  · rintro ⟨r', hr', hFailed⟩
    rcases mem_modify.mp hr' with ⟨hr', -⟩ | ⟨r₀, -, -, rfl⟩
    · exact Or.inl ⟨r', hr', hFailed⟩
    · exact Or.inr hFailed
  · rintro (⟨r', hr', hFailed⟩ | rfl)
    · refine ⟨r', mem_modify.mpr (Or.inl ⟨hr', fun hidx => ?_⟩), hFailed⟩
      -- the request of this index is still in `init`
      obtain rfl := hDistinct.eq_of_key_eq hr' (mem_of_lookup hr)
        (hidx.trans (key_of_lookup hr).symm)
      rw [hInit] at hFailed
      cases hFailed
    · exact ⟨_, mem_modify.mpr (Or.inr ⟨r, mem_of_lookup hr, key_of_lookup hr, rfl⟩), rfl⟩

theorem initNr_pos {g : TokenReqgrp Id} {idx : Nat} {r : TokenReq Id}
    (hr : g.request? idx = some r) (hInit : r.stat = .init) : 0 < g.initNr :=
  List.countP_pos_iff.mpr ⟨r, mem_of_lookup hr, by simpa using hInit⟩

/-- The group after the compare-and-swap and the decrement, `failedExist` as the
call has left it. -/
theorem Sound.resolved {g : TokenReqgrp Id} (h : g.Sound) (g' : TokenReqgrp Id) {idx : Nat}
    {r : TokenReq Id} (hr : g.request? idx = some r) (hInit : r.stat = .init) {s : AppTokenStat}
    (hs : s ≠ .init)
    (hReqs : g'.lheadReqgrp = (g.setStat idx s).lheadReqgrp) (hGid : g'.gid = g.gid)
    (hPri : g'.pri = g.pri) (hPending : g'.reqPendingNr = g.reqPendingNr - 1)
    (hFlag : g'.failedExist = true ↔ g.failedExist = true ∨ s = .failed)
    (hErr : g'.err = if g'.reqPendingNr = 0 then g'.verdictFlag else .pending) :
    g.Resolved idx s g' (if g'.reqPendingNr = 0 then g'.verdictFlag else .pending) := by
  have hInitNr : g'.initNr + 1 = g.initNr := by
    rw [initNr, hReqs]
    exact initNr_setStat h.distinct hr hInit hs
  have hPending' : g'.reqPendingNr = g'.initNr := by
    rw [hPending, h.pending_eq]
    omega
  have hZero : g'.reqPendingNr = 0 ↔ g'.initNr = 0 := by
    rw [hPending']
    exact Int.natCast_eq_zero
  refine ⟨⟨?_, ?_, hPending', ?_, ?_⟩, hReqs, hGid, hPri, hInitNr, ?_⟩
  · rw [hReqs]
    exact h.distinct.modify (f := fun r => { r with stat := s }) fun _ => rfl
  · rw [hReqs, hGid]
    intro r' hr'
    rcases mem_modify.mp hr' with ⟨hr', -⟩ | ⟨r₀, hr₀, -, rfl⟩
    · exact h.owner r' hr'
    · exact h.owner r₀ hr₀
  · rw [hFlag, hReqs, mem_setStat_failed hr hInit h.distinct, h.failed_iff]
  · simp only [hErr, hZero]
  · rw [hErr]
    simp only [hZero]
    split <;> rfl

theorem Sound.toGot {g : TokenReqgrp Id} (h : g.Sound) {idx : Nat} {r : TokenReq Id}
    (hr : g.request? idx = some r) (hInit : r.stat = .init) :
    g.Resolved idx .got (g.toGot idx).1 (g.toGot idx).2 := by
  have hErr : g.err = .pending := by
    rw [h.err_eq, if_neg (Nat.pos_iff_ne_zero.mp (initNr_pos hr hInit))]
  have hcas : g.casStat idx .got = (g.setStat idx .got, true) := by simp [casStat, hr, hInit]
  unfold TokenReqgrp.toGot
  rw [hcas]
  simp only
  by_cases hz : (g.setStat idx .got).subPending.reqPendingNr = 0
  · simp only [if_pos hz]
    have := h.resolved ((g.setStat idx .got).subPending.setErr
      (g.setStat idx .got).subPending.verdictFlag) hr hInit (s := .got) (by simp) rfl rfl rfl rfl
      (by simp) (by rw [setErr_reqPendingNr, if_pos hz]; rfl)
    rwa [setErr_reqPendingNr, if_pos hz] at this
  · simp only [if_neg hz]
    have := h.resolved (g.setStat idx .got).subPending hr hInit (s := .got) (by simp)
      rfl rfl rfl rfl (by simp) (by simp only [if_neg hz]; exact hErr)
    rwa [if_neg hz] at this

theorem Sound.toFailed {g : TokenReqgrp Id} (h : g.Sound) {idx : Nat} {r : TokenReq Id}
    (hr : g.request? idx = some r) (hInit : r.stat = .init) :
    g.Resolved idx .failed (g.toFailed idx).1 (g.toFailed idx).2 := by
  have hErr : g.err = .pending := by
    rw [h.err_eq, if_neg (Nat.pos_iff_ne_zero.mp (initNr_pos hr hInit))]
  have hr' : g.setFailedExist.request? idx = some r := hr
  have hcas : g.setFailedExist.casStat idx .failed =
      (g.setFailedExist.setStat idx .failed, true) := by
    simp [casStat, hr', hInit]
  unfold TokenReqgrp.toFailed
  rw [hcas]
  simp only
  by_cases hz : (g.setFailedExist.setStat idx .failed).subPending.reqPendingNr = 0
  · simp only [if_pos hz]
    have := h.resolved ((g.setFailedExist.setStat idx .failed).subPending.setErr .failedNode)
      hr hInit (s := .failed) (by simp) rfl rfl rfl rfl (by simp)
      (by rw [setErr_reqPendingNr, if_pos hz]; rfl)
    rwa [setErr_reqPendingNr, if_pos hz] at this
  · simp only [if_neg hz]
    have := h.resolved (g.setFailedExist.setStat idx .failed).subPending hr hInit
      (s := .failed) (by simp) rfl rfl rfl rfl (by simp) (by simp only [if_neg hz]; exact hErr)
    rwa [if_neg hz] at this

/-- A write of `Nodeid` concerns nobody but the request. -/
theorem Sound.setNodeid {g : TokenReqgrp Id} (h : g.Sound) (idx : Nat) (nodeid : BitVec 32) :
    (g.setNodeid idx nodeid).Sound ∧ (g.setNodeid idx nodeid).initNr = g.initNr := by
  have hStat : ∀ (p : AppTokenStat → Bool),
      ((g.setNodeid idx nodeid).lheadReqgrp.map fun r => p r.stat) =
        g.lheadReqgrp.map fun r => p r.stat := by
    intro p
    simp only [TokenReqgrp.setNodeid, Keyed.modify, List.map_map]
    refine List.map_congr_left fun r _ => ?_
    simp only [Function.comp_apply]
    split <;> rfl
  have hInitNr : (g.setNodeid idx nodeid).initNr = g.initNr := by
    have := congrArg (List.countP id) (hStat fun s => decide (s = .init))
    simpa [List.countP_map, initNr, Function.comp_def] using this
  refine ⟨⟨?_, ?_, ?_, ?_, ?_⟩, hInitNr⟩
  · exact h.distinct.modify (f := fun r => { r with nodeid := nodeid }) fun _ => rfl
  · intro r' hr'
    rcases mem_modify.mp hr' with ⟨hr', -⟩ | ⟨r₀, hr₀, -, rfl⟩
    · exact h.owner r' hr'
    · exact h.owner r₀ hr₀
  · rw [hInitNr]
    exact h.pending_eq
  · rw [show (g.setNodeid idx nodeid).failedExist = g.failedExist from rfl, h.failed_iff]
    have := congrArg (fun l => true ∈ l) (hStat fun s => decide (s = .failed))
    simpa [List.mem_map] using this.symm
  · rw [hInitNr]
    exact h.err_eq

end TokenReqgrp

end DatastorQos
