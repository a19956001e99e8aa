import DatastorQos.App.Leaving

/-!
# datastor_qos — calls made from callbacks

`end_token_grps` calls `token_grp_got` of the application with no lock held,
while the call that settled the groups is still on its way. There the
application may make calls of its own, whose callbacks may make calls again.

A thread that does so has a stack of calls that are not over. `CallRest` is what
is left to do of one, from a place where the application had control, and a
state of `nestedSystem` is the manager, the groups the application may put, and
these rests, the innermost first. Everything between two places where the
application has control is one step, as no one else runs.

What follows the model is what calls do to groups, with and without nesting.
-/

namespace DatastorQos

open Keyed GrpHeap Runs Manager

variable {Id : Type} {ops : IdOps Id}

-- ---------------------------------------------------------------------------
-- What is left to do of a call
-- ---------------------------------------------------------------------------

/-- What is left to do of a call. -/
inductive CallRest (Id : Type) where
  /-- `check_node_out_when_put`, from this element of the ring on -/
  | checkOut (rsList : List (Resource Id))
  /-- `put_token_grp`, from `try_to_put_tokens` on -/
  | putTokens (gid : GrpPtr)
  /-- `end_token_grps`, for one group -/
  | callBack (gid : GrpPtr)
  /-- `token_grp_got`: the application has control -/
  | tokenGrpGot
  /-- `token_reqgrp_exit` and the `free` after it, at the end of `put_token_grp` -/
  | exitGrp (gid : GrpPtr)
  /-- the return of `get_token_grp` with the group it made -/
  | answer (gid : GrpPtr) (err : QosError)
  deriving DecidableEq, Repr

/-- `end_token_grps`, one callback after the other. -/
def callBacks (callbacks : List Callback) : List (CallRest Id) :=
  callbacks.map fun cb => .callBack cb.grp

namespace Manager

/-- `put_token_grp` from `try_to_put_tokens` to the first callback. Here and
below `none` is a failed `assert` or a pointer to what is not there. -/
def putTokens (m : Manager ops) (gid : GrpPtr) : Option (Manager ops × List (CallRest Id)) :=
  (group? m.groups gid).map fun g =>
    let (m, relative) := m.tryToPutTokens [] (g.lheadReqgrp.map TokenReq.ptr)
    (m, callBacks (endTokenGrps m.groups relative) ++ [.exitGrp gid])

/-- `get_token_grp` to the first callback, or to its end. -/
def getTokens (m : Manager ops) (ring : ResourceRing Id) (pri : Nat) :
    Option (Manager ops × List (CallRest Id)) :=
  match m.tokenGrpCache.alloc with
  | none => some (m, [])
  | some tokenGrpCache =>
    let gid := m.nextGrp
    let m := { m with tokenGrpCache := tokenGrpCache, nextGrp := gid + 1 }
    match TokenReqgrp.tokenReqgrpInit gid m.resourceCache ring.walk pri with
    | (g, resourceCache, .ok) =>
      let m := { m with resourceCache := resourceCache, groups := g :: m.groups }
      (m.checkNodeInWhenGet ring.walk).bind fun m =>
        match m.tryToGetTokens .ok g.lheadReqgrp with
        | (m, .ok) => some (m, [.answer gid .ok])
        | (m, .pending) => some (m, [.answer gid .pending])
        | (m, err) => (m.putTokens gid).map fun (m, rests) => (m, rests ++ [.answer gid err])
    | (_, resourceCache, _) =>
      some ({ m with resourceCache := resourceCache, tokenGrpCache := m.tokenGrpCache.free }, [])

end Manager

/-- A call, up to where the application has control again. -/
def ManagerCall.enter (m : Manager ops) :
    ManagerCall Id → Option (Manager ops × List (CallRest Id))
  | .getTokenGrp ring pri => m.getTokens ring pri
  | .putTokenGrp gid failRs =>
    some (m, [.checkOut ((failRs.map ResourceRing.walk).getD []), .putTokens gid])
  | .nodeOnline id => (m.nodeOnline id).map (·, [])
  | .nodeOffline id => some ((m.nodeOffline id).1, callBacks (m.nodeOffline id).2)
  | .nodeReset id => some (m.nodeReset id, [])
  | .rcvd id dta => (m.rcvd id dta).map fun res => (res.1, callBacks res.2)

namespace CallRest

/-- The next step of what is left to do, and what is then left. It is for the
application to return from `token_grp_got`. -/
def run (m : Manager ops) : CallRest Id → Option (Manager ops × List (CallRest Id))
  | .checkOut [] => some (m, [])
  | .checkOut (rs :: rest) =>
    match m.node? rs.id with
    | some _ =>
      some ((m.nodeOffline rs.id).1, callBacks (m.nodeOffline rs.id).2 ++ [.checkOut rest])
    | none => some (m, [.checkOut rest])
  | .putTokens gid => m.putTokens gid
  | .callBack gid => (group? m.groups gid).map fun _ => (m, [.tokenGrpGot])
  | .tokenGrpGot => none
  | .exitGrp gid => (group? m.groups gid).map fun _ => (m.freeGroup gid, [])
  | .answer _ _ => some (m, [])

/-- What the application sees of the next step. -/
def seen (m : Manager ops) : CallRest Id → Seen
  | .callBack gid => ⟨none, endTokenGrps m.groups [gid]⟩
  | .answer gid err => ⟨some (gid, err), []⟩
  | _ => ⟨none, []⟩

/-- The groups whose verdict is known and that the application may not put, as it
does not have it yet or has put them. -/
def owed : CallRest Id → List GrpPtr
  | .putTokens gid | .callBack gid | .answer gid .ok => [gid]
  | _ => []

/-- The groups that were put and are still there. -/
def leaving : CallRest Id → List GrpPtr
  | .exitGrp gid => [gid]
  | _ => []

end CallRest

/-- The manager, the groups the application may put, and what is left to do of
the calls that are not over, the innermost first. -/
structure Nesting (ops : IdOps Id) where
  manager : Manager ops
  held    : List GrpPtr
  rests   : List (CallRest Id)

namespace Nesting

/-- The application has control: no call is on its way, or it was called back. -/
def InControl (s : Nesting ops) : Prop :=
  match s.rests with
  | [] | .tokenGrpGot :: _ => True
  | _ => False

def owed (s : Nesting ops) : List GrpPtr := s.rests.flatMap CallRest.owed

def leaving (s : Nesting ops) : List GrpPtr := s.rests.flatMap CallRest.leaving

/-- What the application is still to see of the calls on their way. -/
def due (s : Nesting ops) : List Seen := s.rests.map (CallRest.seen s.manager)

end Nesting

/-- A call with what is left of it where the application has control again, a
step of what is left, or a return of the application from a callback. -/
inductive NestAct (Id : Type) where
  | call (call : ManagerCall Id) (rests : List (CallRest Id))
  | run (rest : CallRest Id) (seen : Seen)
  | gotReturns

def nestedSystem (ops : IdOps Id) : System (Nesting ops) (NestAct Id) where
  init s := ∃ tabLen maxTokenGrpNum maxResourceNum maxNodeNum h,
    s = ⟨.init ops tabLen maxTokenGrpNum maxResourceNum maxNodeNum h, [], []⟩
  step s a s' :=
    match a with
    | .call call rests =>
      s.InControl ∧ call.Legal s.held ∧ call.enter s.manager = some (s'.manager, rests) ∧
        s'.held = call.release s.held ∧ s'.rests = rests ++ s.rests
    | .run rest seen =>
      ∃ rests after, s.rests = rest :: after ∧
        rest.run s.manager = some (s'.manager, rests) ∧ seen = rest.seen s.manager ∧
        s'.held = seen.delivers ++ s.held ∧ s'.rests = rests ++ after
    | .gotReturns =>
      s.rests = .tokenGrpGot :: s'.rests ∧ s'.manager = s.manager ∧ s'.held = s.held

namespace NestAct

def seen : NestAct Id → Seen
  | .run _ seen => seen
  | _ => ⟨none, []⟩

/-- The call that does the same where calls are not nested. A get that made no
group did nothing. -/
def asCall : NestAct Id → Option (ManagerCall Id)
  | .call (.getTokenGrp _ _) [] => none
  | .call (.putTokenGrp _ _) _ => none
  | .call c _ => some c
  | .run (.checkOut (rs :: _)) _ => some (.nodeOffline rs.id)
  | .run (.putTokens gid) _ => some (.putTokenGrp gid none)
  | _ => none

end NestAct

/-- A call, unless it is a get that made no group. -/
def AppAct.lasting (a : AppAct Id) : Option (ManagerCall Id) :=
  match a.call, a.seen.answer with
  | .getTokenGrp _ _, none => none
  | call, _ => some call

-- ---------------------------------------------------------------------------
-- Which groups there are
-- ---------------------------------------------------------------------------

namespace Manager

variable {m m₁ m' : Manager ops} {id : Id} {maxNodeNum : ULong} {leaving : List GrpPtr}

/-- The operations that make no group and give none back. -/
structure KeepsGroups (m m' : Manager ops) : Prop where
  shape     : m'.groups.shape = m.groups.shape
  tokenGrps : m'.tokenGrpCache = m.tokenGrpCache
  resources : m'.resourceCache = m.resourceCache
  nextGrp   : m'.nextGrp = m.nextGrp

namespace KeepsGroups

theorem refl (m : Manager ops) : KeepsGroups m m := ⟨rfl, rfl, rfl, rfl⟩

theorem trans (a : KeepsGroups m m₁) (b : KeepsGroups m₁ m') : KeepsGroups m m' :=
  ⟨b.shape.trans a.shape, b.tokenGrps.trans a.tokenGrps, b.resources.trans a.resources,
    b.nextGrp.trans a.nextGrp⟩

theorem of_stock (h : SameStock m m') (hNext : m'.nextGrp = m.nextGrp) : KeepsGroups m m' :=
  ⟨h.shape, h.tokenGrps, h.resources, hNext⟩

end KeepsGroups

theorem nodeOnline_keepsGroups (h : m.nodeOnline id = some m') : KeepsGroups m m' := by
  cases nodeOnline_way h <;> exact ⟨rfl, rfl, rfl, rfl⟩

theorem nodeOffline_keepsGroups (m : Manager ops) (id : Id) :
    KeepsGroups m (m.nodeOffline id).1 := by
  refine ⟨m.nodeOffline_shape id, ?_, ?_, (nodeOffline_caches m id).nextGrp_eq⟩ <;>
  · unfold nodeOffline
    split <;> rfl

theorem nodeReset_keepsGroups (m : Manager ops) (id : Id) : KeepsGroups m (m.nodeReset id) := by
  refine .of_stock (m.nodeReset_stock id) ?_
  unfold nodeReset
  split <;> rfl

theorem rcvd_keepsGroups {dta : Dispatch2App} {callbacks : List Callback}
    (h : m.rcvd id dta = some (m', callbacks)) : KeepsGroups m m' := by
  unfold rcvd at h
  split at h
  · obtain ⟨m₁, hOnline, heq⟩ := Option.map_eq_some_iff.mp h
    obtain ⟨rfl, -⟩ := Prod.mk.inj heq
    exact nodeOnline_keepsGroups hOnline
  · rename_i item _
    have hShape := item.resourceChanged_shape m.groups dta []
    generalize item.resourceChanged m.groups dta [] = changed at hShape h
    obtain ⟨item', heap, relative, isReset⟩ := changed
    have hSet := KeepsGroups.of_stock (m.setNode_stock id item' hShape) rfl
    obtain ⟨rfl, -⟩ := Prod.mk.inj (Option.some.inj h)
    cases isReset with
    | true => exact hSet.trans (nodeReset_keepsGroups _ id)
    | false => exact hSet

theorem checkNodeInWhenGet_keepsGroups {rsList : List (Resource Id)}
    (h : m.checkNodeInWhenGet rsList = some m') : KeepsGroups m m' :=
  checkNodeInWhenGet_rule KeepsGroups.refl
    (fun hOnline hRest => (nodeOnline_keepsGroups hOnline).trans hRest) h

end Manager

/-- The addresses of the groups. -/
def GrpHeap.gids (h : GrpHeap Id) : List GrpPtr := h.map TokenReqgrp.gid

theorem GrpHeap.gids_of_shape {h h' : GrpHeap Id} (hShape : shape h' = shape h) :
    gids h' = gids h := by
  have hGids : ∀ h : GrpHeap Id, gids h = (shape h).map Prod.fst := fun h => by
    unfold shape gids
    rw [List.map_map]
    rfl
  rw [hGids, hGids, hShape]

theorem GrpHeap.group?_of_mem_gids {h : GrpHeap Id} {gid : GrpPtr} (hgid : gid ∈ gids h) :
    ∃ g, group? h gid = some g := by
  refine Option.ne_none_iff_exists'.mp fun hNone => ?_
  obtain ⟨g, hg, rfl⟩ := List.mem_map.mp hgid
  exact lookup_eq_none_iff.mp hNone g hg rfl

theorem GrpHeap.mem_gids_of_group? {h : GrpHeap Id} {gid : GrpPtr} {g : TokenReqgrp Id}
    (hg : group? h gid = some g) : gid ∈ gids h :=
  List.mem_map.mpr ⟨g, mem_of_lookup hg, key_of_lookup hg⟩

namespace Manager

variable {m m' : Manager ops} {maxNodeNum : ULong} {leaving : List GrpPtr} {gid : GrpPtr}

/-- The caches have handed out what is there, every group has its own address,
and the groups in `leaving` are there. -/
structure Tidy (maxNodeNum : ULong) (leaving : List GrpPtr) (m : Manager ops) : Prop where
  stocked  : m.Stocked maxNodeNum
  distinct : m.groups.gids.Nodup
  fresh    : ∀ gid ∈ m.groups.gids, gid < m.nextGrp
  nodup    : leaving.Nodup
  live     : ∀ gid ∈ leaving, gid ∈ m.groups.gids

namespace Tidy

theorem keeps (ht : m.Tidy maxNodeNum leaving) (hk : KeepsGroups m m')
    (hs : m'.Stocked maxNodeNum) : m'.Tidy maxNodeNum leaving where
  stocked  := hs
  distinct := by
    rw [gids_of_shape hk.shape]
    exact ht.distinct
  fresh    := by
    rw [gids_of_shape hk.shape, hk.nextGrp]
    exact ht.fresh
  nodup    := ht.nodup
  live     := by
    rw [gids_of_shape hk.shape]
    exact ht.live

theorem next_not_mem (ht : m.Tidy maxNodeNum leaving) : m.nextGrp ∉ leaving := fun hgid =>
  Nat.lt_irrefl _ (ht.fresh _ (ht.live _ hgid))

theorem newGroup (ht : m.Tidy maxNodeNum leaving) {tokenGrpCache resourceCache : MemoryCache}
    {g : TokenReqgrp Id} {rsList : List (Resource Id)} {pri : Nat}
    (hAlloc : m.tokenGrpCache.alloc = some tokenGrpCache)
    (hInit : TokenReqgrp.tokenReqgrpInit m.nextGrp m.resourceCache rsList pri =
      (g, resourceCache, .ok)) :
    ({ m with
      tokenGrpCache := tokenGrpCache
      resourceCache := resourceCache
      nextGrp       := m.nextGrp + 1
      groups        := g :: m.groups } : Manager ops).Tidy maxNodeNum leaving := by
  obtain ⟨-, -, hgid, -⟩ := TokenReqgrp.tokenReqgrpInit_spec hInit
  refine ⟨ht.stocked.newGroup hAlloc hInit, ?_, ?_, ht.nodup, fun x hx =>
    List.mem_cons_of_mem _ (ht.live x hx)⟩
  · refine List.nodup_cons.mpr ⟨fun hMem => ?_, ht.distinct⟩
    exact Nat.lt_irrefl _ (ht.fresh m.nextGrp (hgid ▸ hMem))
  · intro x hx
    rcases List.mem_cons.mp hx with rfl | hx
    · exact hgid ▸ Nat.lt_succ_self _
    · exact Nat.lt_succ_of_lt (ht.fresh x hx)

theorem leave (ht : m.Tidy maxNodeNum leaving) (hgid : gid ∈ m.groups.gids)
    (hNot : gid ∉ leaving) : m.Tidy maxNodeNum (gid :: leaving) :=
  ⟨ht.stocked, ht.distinct, ht.fresh, List.nodup_cons.mpr ⟨hNot, ht.nodup⟩,
    List.forall_mem_cons.mpr ⟨hgid, ht.live⟩⟩

theorem exit (ht : m.Tidy maxNodeNum (gid :: leaving)) :
    (m.freeGroup gid).Tidy maxNodeNum leaving := by
  obtain ⟨hNot, hNodup⟩ := List.nodup_cons.mp ht.nodup
  obtain ⟨hgid, hLive⟩ := List.forall_mem_cons.mp ht.live
  obtain ⟨g, hg⟩ := group?_of_mem_gids hgid
  have hGroups : (m.freeGroup gid).groups = erase TokenReqgrp.gid gid m.groups := by
    unfold freeGroup
    rw [hg]
  have hNext : (m.freeGroup gid).nextGrp = m.nextGrp := by
    unfold freeGroup
    rw [hg]
  have hMem : ∀ x, x ∈ (m.freeGroup gid).groups.gids ↔ x ∈ m.groups.gids ∧ x ≠ gid := by
    intro x
    rw [hGroups]
    constructor
    · intro hx
      obtain ⟨g', hg', rfl⟩ := List.mem_map.mp hx
      exact ⟨List.mem_map_of_mem (mem_erase.mp hg').1, (mem_erase.mp hg').2⟩
    · rintro ⟨hx, hne⟩
      obtain ⟨g', hg', rfl⟩ := List.mem_map.mp hx
      exact List.mem_map_of_mem (mem_erase.mpr ⟨hg', hne⟩)
  refine ⟨ht.stocked.freeGroup ht.distinct gid, ?_, fun x hx => ?_, hNodup, fun x hx => ?_⟩
  · rw [hGroups]
    exact Distinct.erase ht.distinct gid
  · rw [hNext]
    exact ht.fresh x ((hMem x).mp hx).1
  · exact (hMem x).mpr ⟨hLive x hx, fun heq => hNot (heq ▸ hx)⟩

end Tidy

end Manager

-- ---------------------------------------------------------------------------
-- A call that is not nested
-- ---------------------------------------------------------------------------

/-- A group whose verdict a call delivers is delivered once, and the application
did not have it. -/
theorem delivers_new {f f' : AppState ops} {a : AppAct Id} {fenced calm : Prop}
    (hi : f.Inv fenced calm) (hFate : StepFate f.manager a.seen f'.manager) :
    a.seen.delivers.Nodup ∧ ∀ gid ∈ a.seen.delivers, gid ∉ f.held := by
  have hKnown : ∀ cb ∈ a.seen.callbacks, ∃ g, f.manager.record? cb.grp = some g := fun cb hcb =>
    Option.isSome_iff_exists.mp (hFate.fate.carries cb hcb).1
  have hCount : ∀ cb ∈ a.seen.callbacks, a.seen.callbacks.countP (fun x => x.grp = cb.grp) ≤ 1 ∧
      cb.grp ∉ f.held := by
    intro cb hcb
    obtain ⟨g, hg⟩ := hKnown cb hcb
    obtain ⟨g', -, -, hOnce⟩ := hFate.fate.kept cb.grp g hg
    have hPos : 0 < a.seen.callbacks.countP (fun x => x.grp = cb.grp) :=
      List.countP_pos_iff.mpr ⟨cb, hcb, decide_eq_true rfl⟩
    split at hOnce
    · rename_i hNow
      refine ⟨Nat.le_of_eq hOnce, fun hHeld => ?_⟩
      obtain ⟨g₀, hg₀, hz⟩ := (hi.held cb.grp).mp hHeld
      obtain rfl := Option.some.inj (hg.symm.trans (record?_of_group? hg₀))
      exact hNow.1 hz
    · exact absurd hOnce (Nat.ne_of_gt hPos)
  have hMade : ∀ gid, a.seen.answer = some (gid, .ok) →
      gid ∉ a.seen.callbacks.map Callback.grp ∧ gid ∉ f.held := by
    intro gid hAnswer
    obtain ⟨hNone, -⟩ := hFate.made gid .ok hAnswer
    constructor
    · intro hMem
      obtain ⟨cb, hcb, rfl⟩ := List.mem_map.mp hMem
      obtain ⟨g, hg⟩ := hKnown cb hcb
      cases hNone.symm.trans hg
    · intro hHeld
      obtain ⟨g₀, hg₀, -⟩ := (hi.held gid).mp hHeld
      cases hNone.symm.trans (record?_of_group? hg₀)
  have hNodup : (a.seen.callbacks.map Callback.grp).Nodup := by
    refine List.nodup_iff_count_le_one.mpr fun gid => ?_
    by_cases hMem : gid ∈ a.seen.callbacks.map Callback.grp
    · obtain ⟨cb, hcb, rfl⟩ := List.mem_map.mp hMem
      rw [List.count, List.countP_map]
      refine Nat.le_trans (Nat.le_of_eq ?_) (hCount cb hcb).1
      exact List.countP_congr fun x _ => by simp
    · exact Nat.le_trans (Nat.le_of_eq (List.count_eq_zero_of_not_mem hMem)) (Nat.zero_le 1)
  constructor
  · unfold Seen.delivers
    split
    · rename_i gid hAnswer
      exact List.nodup_cons.mpr ⟨(hMade gid hAnswer).1, hNodup⟩
    · exact hNodup
  · intro gid hgid
    rcases Seen.mem_delivers.mp hgid with hAnswer | hMem
    · exact (hMade gid hAnswer).2
    · obtain ⟨cb, hcb, rfl⟩ := List.mem_map.mp hMem
      exact (hCount cb hcb).2

/-- A group that the application may put before and after a call is as it was. -/
theorem group?_of_held {f f' : AppState ops} {seen : Seen} {fenced calm : Prop}
    (hi : f.Inv fenced calm) (hi' : f'.Inv fenced calm)
    (hFate : StepFate f.manager seen f'.manager) {gid : GrpPtr} (hgid : gid ∈ f.held)
    (hgid' : gid ∈ f'.held) :
    group? f'.manager.groups gid = group? f.manager.groups gid := by
  obtain ⟨g, hg, hz⟩ := (hi.held gid).mp hgid
  obtain ⟨g', hg', -⟩ := (hi'.held gid).mp hgid'
  obtain ⟨g₁, hg₁, hKept, -⟩ := hFate.fate.kept gid g (record?_of_group? hg)
  obtain rfl := hKept hz
  rw [hg, hg', ← hg₁, record?_of_group? hg']

/-- The groups that can still be called back. -/
def GrpHeap.unsettled (h : GrpHeap Id) : List GrpPtr :=
  gids (h.filter fun g => g.initNr ≠ 0)

section

variable {h : GrpHeap Id} {callbacks : List Callback}

theorem endTokenGrps_singleton {gid : GrpPtr} {g : TokenReqgrp Id} (hg : group? h gid = some g) :
    endTokenGrps h [gid] = [⟨gid, g.pri, g.err⟩] := by
  simp [endTokenGrps, hg]

/-- What is left of `end_token_grps` shows the application the callbacks one by
one, -/
theorem flatMap_callBacks {m : Manager ops} {l : List GrpPtr}
    (hCallbacks : callbacks = endTokenGrps m.groups l) :
    ((callBacks callbacks).map (CallRest.seen m)).flatMap Seen.callbacks = callbacks := by
  have hOne : ∀ cb ∈ callbacks, endTokenGrps m.groups [cb.grp] = [cb] := by
    intro cb hcb
    rw [hCallbacks] at hcb
    obtain ⟨gid, -, heq⟩ := List.mem_filterMap.mp hcb
    obtain ⟨g, hg, rfl⟩ := Option.map_eq_some_iff.mp heq
    exact endTokenGrps_singleton hg
  unfold callBacks
  rw [List.map_map, List.flatMap_map]
  refine (List.flatMap_congr hOne).trans ?_
  exact List.flatMap_pure_eq_map id callbacks |>.trans (List.map_id callbacks)

/-- and no answers. -/
theorem filterMap_callBacks (m : Manager ops) (callbacks : List Callback) :
    ((callBacks callbacks).map (CallRest.seen m)).filterMap Seen.answer = [] := by
  unfold callBacks
  rw [List.map_map, List.filterMap_map]
  exact List.filterMap_eq_nil_iff.mpr fun _ _ => rfl

theorem owed_callBacks (callbacks : List Callback) :
    (callBacks callbacks : List (CallRest Id)).flatMap CallRest.owed =
      callbacks.map Callback.grp := by
  unfold callBacks
  rw [List.flatMap_map]
  exact List.flatMap_pure_eq_map Callback.grp callbacks

theorem leaving_callBacks (callbacks : List Callback) :
    (callBacks callbacks : List (CallRest Id)).flatMap CallRest.leaving = [] := by
  unfold callBacks
  rw [List.flatMap_map]
  exact List.flatMap_eq_nil_iff.mpr fun _ _ => rfl

/-- The rests that show the application nothing. -/
theorem callbacks_quiet {m : Manager ops} {rests : List (CallRest Id)}
    (hQuiet : ∀ rest ∈ rests, rest.seen m = ⟨none, []⟩) :
    (rests.map (CallRest.seen m)).flatMap Seen.callbacks = [] := by
  rw [List.flatMap_map]
  exact List.flatMap_eq_nil_iff.mpr fun rest hRest => by rw [hQuiet rest hRest]

theorem answers_quiet {m : Manager ops} {rests : List (CallRest Id)}
    (hQuiet : ∀ rest ∈ rests, rest.seen m = ⟨none, []⟩) :
    (rests.map (CallRest.seen m)).filterMap Seen.answer = [] := by
  rw [List.filterMap_map]
  exact List.filterMap_eq_nil_iff.mpr fun rest hRest => by
    rw [Function.comp_apply, hQuiet rest hRest]

end

theorem nodeOffline_callbacks (m : Manager ops) (id : Id) :
    ∃ l, (m.nodeOffline id).2 = endTokenGrps (m.nodeOffline id).1.groups l := by
  unfold nodeOffline
  split
  · exact ⟨[], rfl⟩
  · exact ⟨_, rfl⟩

theorem rcvd_callbacks {m m' : Manager ops} {id : Id} {dta : Dispatch2App}
    {callbacks : List Callback} (h : m.rcvd id dta = some (m', callbacks)) :
    ∃ l, callbacks = endTokenGrps m'.groups l := by
  unfold rcvd at h
  split at h
  · obtain ⟨m₁, -, heq⟩ := Option.map_eq_some_iff.mp h
    obtain ⟨-, rfl⟩ := Prod.mk.inj heq
    exact ⟨[], rfl⟩
  · obtain ⟨rfl, rfl⟩ := Prod.mk.inj (Option.some.inj h)
    exact ⟨_, rfl⟩

end DatastorQos
