import DatastorQos.App.NestedSteps

/-!
# datastor_qos — get_token_grp from a callback

Groups whose put is not over take objects of both caches, so a get from a
callback may find none where a get after the put would. It then makes no group,
and is answered by a get that asks for too much. Where it makes one, the same is
made without nesting.
-/

namespace DatastorQos

open Keyed GrpHeap Runs Manager

variable {Id : Type} {ops : IdOps Id}

section

variable {cache cache' cache₂ : MemoryCache} {unit : ULong} {k k₂ : Nat} {g g' : TokenReqgrp Id}
  {rsList : List (Resource Id)} {pri : Nat} {gid : GrpPtr}

/-- A cache that has handed out less has the requests of a group, too. -/
theorem initRipListByRsList_of_le (hHolds : cache.Holds unit k) (hHolds₂ : cache₂.Holds unit k₂)
    (hLe : k₂ ≤ k) (h : g.initRipListByRsList cache rsList = (g', cache', .ok)) :
    ∃ cache₂', g.initRipListByRsList cache₂ rsList = (g', cache₂', .ok) := by
  induction rsList generalizing g cache cache₂ k k₂ with
  | nil =>
    obtain ⟨rfl, -⟩ := Prod.mk.inj h
    exact ⟨_, rfl⟩
  | cons rs rest ih =>
    rw [TokenReqgrp.initRipListByRsList] at h ⊢
    split at h
    · rename_i r cache₁ hr
      obtain ⟨_, hAlloc, hr⟩ := Option.map_eq_some_iff.mp hr
      obtain ⟨rfl, rfl⟩ := Prod.mk.inj hr
      have hRoom := hHolds.isSome_alloc_iff.mp (Option.isSome_of_eq_some hAlloc)
      obtain ⟨cache₃, hAlloc₂⟩ := Option.isSome_iff_exists.mp
        (hHolds₂.isSome_alloc_iff.mpr (Nat.lt_of_le_of_lt hLe hRoom))
      rw [TokenReqgrp.allocToken, hAlloc₂, Option.map_some]
      exact ih (hHolds.alloc hAlloc) (hHolds₂.alloc hAlloc₂) (Nat.succ_le_succ hLe) h
    · cases (Prod.mk.inj (Prod.mk.inj h).2).2

theorem tokenReqgrpInit_of_le (hHolds : cache.Holds unit k) (hHolds₂ : cache₂.Holds unit k₂)
    (hLe : k₂ ≤ k) (h : TokenReqgrp.tokenReqgrpInit gid cache rsList pri = (g, cache', .ok)) :
    ∃ cache₂', TokenReqgrp.tokenReqgrpInit gid cache₂ rsList pri = (g, cache₂', .ok) := by
  unfold TokenReqgrp.tokenReqgrpInit at h ⊢
  split at h
  · rename_i g₁ cache₁ heq
    obtain ⟨rfl, -⟩ := Prod.mk.inj h
    obtain ⟨cache₂', heq₂⟩ := initRipListByRsList_of_le hHolds hHolds₂ hLe heq
    rw [heq₂]
    exact ⟨_, rfl⟩
  · rename_i hne _
    simp only [Prod.mk.injEq] at h
    exact absurd h.2.2 (by rintro rfl; simp_all)

/-- No cache has the requests for more resources than its objects. -/
theorem tokenReqgrpInit_too_large (hHolds : cache.Holds unit k) (hLong : unit.toNat < rsList.length)
    (gid : GrpPtr) (pri : Nat) :
    ∃ g cache' err, TokenReqgrp.tokenReqgrpInit gid cache rsList pri = (g, cache', err) ∧
      err ≠ .ok := by
  refine ⟨_, _, _, rfl, fun hOk => ?_⟩
  have h : TokenReqgrp.tokenReqgrpInit gid cache rsList pri = (_, _, .ok) :=
    Prod.ext rfl (Prod.ext rfl hOk)
  obtain ⟨-, hNeed, -⟩ := TokenReqgrp.tokenReqgrpInit_spec h
  have hLength := congrArg List.length hNeed
  rw [List.length_map, List.length_reverse] at hLength
  have hTaken := (TokenReqgrp.tokenReqgrpInit_cache h).2 unit k hHolds
  have hLe := hTaken.le
  omega

end

/-- The ways `getTokens` goes. -/
inductive GetTokensWay (m : Manager ops) (ring : ResourceRing Id) (pri : Nat) :
    Manager ops → List (CallRest Id) → Prop where
  | noGroup : m.tokenGrpCache.alloc = none → GetTokensWay m ring pri m []
  | noRequest {tokenGrpCache resourceCache : MemoryCache} {g : TokenReqgrp Id} {err : QosError} :
      m.tokenGrpCache.alloc = some tokenGrpCache →
      TokenReqgrp.tokenReqgrpInit m.nextGrp m.resourceCache ring.walk pri =
        (g, resourceCache, err) → err ≠ .ok →
      GetTokensWay m ring pri
        { m with
          resourceCache := resourceCache
          tokenGrpCache := tokenGrpCache.free
          nextGrp       := m.nextGrp + 1 } []
  | made {tokenGrpCache resourceCache : MemoryCache} {g : TokenReqgrp Id} {m₁ m₂ m' : Manager ops}
      {err : QosError} {rests : List (CallRest Id)} :
      m.tokenGrpCache.alloc = some tokenGrpCache →
      TokenReqgrp.tokenReqgrpInit m.nextGrp m.resourceCache ring.walk pri =
        (g, resourceCache, .ok) →
      { m with
        tokenGrpCache := tokenGrpCache
        resourceCache := resourceCache
        nextGrp       := m.nextGrp + 1
        groups        := g :: m.groups }.checkNodeInWhenGet ring.walk = some m₁ →
      m₁.tryToGetTokens .ok g.lheadReqgrp = (m₂, err) →
      (err = .ok ∨ err = .pending) ∧ m' = m₂ ∧ rests = [] ∨
        err ≠ .ok ∧ err ≠ .pending ∧ m₂.putTokens m.nextGrp = some (m', rests) →
      GetTokensWay m ring pri m' (rests ++ [.answer m.nextGrp err])

theorem getTokens_way {m m' : Manager ops} {ring : ResourceRing Id} {pri : Nat}
    {rests : List (CallRest Id)} (h : m.getTokens ring pri = some (m', rests)) :
    GetTokensWay m ring pri m' rests := by
  unfold getTokens at h
  split at h
  · rename_i hNone
    obtain ⟨rfl, rfl⟩ := Prod.mk.inj (Option.some.inj h)
    exact .noGroup hNone
  · rename_i tokenGrpCache hAlloc
    simp only at h
    split at h
    · rename_i g cache hInit
      obtain ⟨m₁, hIn, hRes⟩ := Option.bind_eq_some_iff.mp h
      obtain ⟨m₂, err, hPlaced⟩ : ∃ m₂ err, m₁.tryToGetTokens .ok g.lheadReqgrp = (m₂, err) :=
        ⟨_, _, rfl⟩
      rw [hPlaced] at hRes
      split at hRes
      · rename_i heq
        obtain ⟨rfl, rfl⟩ := Prod.mk.inj heq
        obtain ⟨rfl, rfl⟩ := Prod.mk.inj (Option.some.inj hRes)
        have hWay := GetTokensWay.made hAlloc hInit hIn hPlaced (Or.inl ⟨Or.inl rfl, rfl, rfl⟩)
        exact hWay
      · rename_i heq
        obtain ⟨rfl, rfl⟩ := Prod.mk.inj heq
        obtain ⟨rfl, rfl⟩ := Prod.mk.inj (Option.some.inj hRes)
        have hWay := GetTokensWay.made hAlloc hInit hIn hPlaced (Or.inl ⟨Or.inr rfl, rfl, rfl⟩)
        exact hWay
      · rename_i hNotOk hNotPending heq
        obtain ⟨rfl, rfl⟩ := Prod.mk.inj heq
        obtain ⟨⟨m₃, rests₃⟩, hPut, hRests⟩ := Option.map_eq_some_iff.mp hRes
        obtain ⟨rfl, rfl⟩ := Prod.mk.inj hRests
        exact .made hAlloc hInit hIn hPlaced (Or.inr ⟨hNotOk, hNotPending, hPut⟩)
    · rename_i g cache err hErr hInit
      obtain ⟨rfl, rfl⟩ := Prod.mk.inj (Option.some.inj h)
      exact .noRequest hAlloc hInit hErr

section

variable {m m₁ m₂ : Manager ops} {ring : ResourceRing Id} {pri : Nat}
  {tokenGrpCache resourceCache : MemoryCache} {g : TokenReqgrp Id} {err : QosError}

theorem getTokenGrp_of_noRequest (hAlloc : m.tokenGrpCache.alloc = some tokenGrpCache)
    (hInit : TokenReqgrp.tokenReqgrpInit m.nextGrp m.resourceCache ring.walk pri =
      (g, resourceCache, err)) (hErr : err ≠ .ok) :
    m.getTokenGrp ring pri =
      some ⟨{ m with
          resourceCache := resourceCache
          tokenGrpCache := tokenGrpCache.free
          nextGrp       := m.nextGrp + 1 }, none, .memory, []⟩ := by
  unfold getTokenGrp
  simp only [hAlloc, hInit]

variable (hAlloc : m.tokenGrpCache.alloc = some tokenGrpCache)
  (hInit : TokenReqgrp.tokenReqgrpInit m.nextGrp m.resourceCache ring.walk pri =
    (g, resourceCache, .ok))
  (hIn : { m with
    tokenGrpCache := tokenGrpCache
    resourceCache := resourceCache
    nextGrp       := m.nextGrp + 1
    groups        := g :: m.groups }.checkNodeInWhenGet ring.walk = some m₁)
  (hPlaced : m₁.tryToGetTokens .ok g.lheadReqgrp = (m₂, err))

include hAlloc hInit hIn hPlaced

theorem getTokenGrp_of_answer (hErr : err = .ok ∨ err = .pending) :
    m.getTokenGrp ring pri = some ⟨m₂, some m.nextGrp, err, []⟩ := by
  unfold getTokenGrp
  simp only [hAlloc, hInit, hIn, Option.map_some, hPlaced]
  rcases hErr with rfl | rfl <;> rfl

theorem getTokenGrp_of_failed (hOk : err ≠ .ok) (hPending : err ≠ .pending) :
    m.getTokenGrp ring pri = some ⟨(m₂.putTokenGrp m.nextGrp none).1, some m.nextGrp, err,
      (m₂.putTokenGrp m.nextGrp none).2⟩ := by
  unfold getTokenGrp
  simp only [hAlloc, hInit, hIn, Option.map_some, hPlaced]

end

namespace Manager.Tidy

variable {m : Manager ops} {maxNodeNum : ULong} {leaving : List GrpPtr}

theorem noRequest (ht : m.Tidy maxNodeNum leaving) {tokenGrpCache resourceCache : MemoryCache}
    {g : TokenReqgrp Id} {rsList : List (Resource Id)} {pri : Nat} {err : QosError}
    (hAlloc : m.tokenGrpCache.alloc = some tokenGrpCache)
    (hInit : TokenReqgrp.tokenReqgrpInit m.nextGrp m.resourceCache rsList pri =
      (g, resourceCache, err)) (hErr : err ≠ .ok) :
    ({ m with
      resourceCache := resourceCache
      tokenGrpCache := tokenGrpCache.free
      nextGrp       := m.nextGrp + 1 } : Manager ops).Tidy maxNodeNum leaving :=
  ⟨ht.stocked.noRequest hAlloc hInit hErr, ht.distinct,
    fun gid hgid => Nat.lt_succ_of_lt (ht.fresh gid hgid), ht.nodup, ht.live⟩

end Manager.Tidy

namespace Nesting

variable {s s' : Nesting ops} {f f' : AppState ops} {maxNodeNum : ULong} {gid : GrpPtr}
  {ring : ResourceRing Id} {pri : Nat}

/-- Without the groups that are leaving there are fewer. -/
theorem Flat.length_le (h : s.Flat maxNodeNum f) :
    f.manager.groups.length ≤ s.manager.groups.length ∧
      f.manager.groups.reqs.length ≤ s.manager.groups.reqs.length := by
  have hSub : f.manager.groups.Sublist s.manager.groups := h.groups_eq ▸ List.filter_sublist
  exact ⟨hSub.length_le, (hSub.flatMap _).length_le⟩

theorem Flat.fresh (h : s.Flat maxNodeNum f) :
    ∀ g ∈ f.manager.groups, g.gid < f.manager.nextGrp := by
  obtain ⟨_, _, hFlat⟩ := h.asCalls.manager
  rw [hFlat]
  exact fun g hg => h.tidy.fresh g.gid (List.mem_map_of_mem (List.mem_filter.mp hg).1)

/-- So where there is an object for a group there is one without nesting, -/
theorem Flat.alloc (h : s.Flat maxNodeNum f) {cache : MemoryCache}
    (hAlloc : s.manager.tokenGrpCache.alloc = some cache) :
    ∃ cache₂, f.manager.tokenGrpCache.alloc = some cache₂ := by
  obtain ⟨unit, hHolds⟩ := h.tidy.stocked.tokenGrps
  obtain ⟨unit₂, hHolds₂⟩ := h.stocked.tokenGrps
  obtain rfl : unit₂ = unit := hHolds₂.unit_eq.symm.trans (h.tokenGrps.trans hHolds.unit_eq)
  have hRoom := hHolds.isSome_alloc_iff.mp (Option.isSome_of_eq_some hAlloc)
  exact Option.isSome_iff_exists.mp
    (hHolds₂.isSome_alloc_iff.mpr (Nat.lt_of_le_of_lt h.length_le.1 hRoom))

/-- and where there are its requests there are. -/
theorem Flat.init (h : s.Flat maxNodeNum f) {rsList : List (Resource Id)} {cache : MemoryCache}
    {g : TokenReqgrp Id}
    (hInit : TokenReqgrp.tokenReqgrpInit gid s.manager.resourceCache rsList pri = (g, cache, .ok)) :
    ∃ cache₂,
      TokenReqgrp.tokenReqgrpInit gid f.manager.resourceCache rsList pri = (g, cache₂, .ok) := by
  obtain ⟨unit, hHolds⟩ := h.tidy.stocked.resources
  obtain ⟨unit₂, hHolds₂⟩ := h.stocked.resources
  obtain rfl : unit₂ = unit := hHolds₂.unit_eq.symm.trans (h.resources.trans hHolds.unit_eq)
  exact tokenReqgrpInit_of_le hHolds hHolds₂ h.length_le.2 hInit

theorem asCall_get {rests : List (CallRest Id)} (hSome : rests ≠ []) :
    (NestAct.call (.getTokenGrp ring pri) rests).asCall = some (.getTokenGrp ring pri) := by
  cases rests with
  | nil => exact absurd rfl hSome
  | cons => rfl

/-- A get that made a group answers, and its callbacks and the release of a group
that failed come before that. -/
theorem Answers.got (h : s.Flat maxNodeNum f) {err : QosError} {callbacks : List Callback}
    {m' : Manager ops} {exits : List GrpPtr}
    (hApply : f.manager.getTokenGrp ring pri = some ⟨m', some gid, err, callbacks⟩)
    (hManager : ∃ caches freed, m' = s'.manager.without (exits ++ s.leaving) caches freed)
    (hCallbacks : ∃ l, callbacks = endTokenGrps s'.manager.groups l)
    (hTidy : s'.manager.Tidy maxNodeNum (exits ++ s.leaving))
    (hTokenGrps : m'.tokenGrpCache.cacheUnit = s'.manager.tokenGrpCache.cacheUnit)
    (hResources : m'.resourceCache.cacheUnit = s'.manager.resourceCache.cacheUnit)
    (hHeld : s'.held = s.held) {rests : List (CallRest Id)}
    (hRests : rests = (callBacks callbacks ++ exits.map .exitGrp) ++ [.answer gid err])
    (hRests' : s'.rests = rests ++ s.rests) :
    ∃ tr f', Answers maxNodeNum s (.call (.getTokenGrp ring pri) rests) s' f tr f' := by
  have hLeaving : s'.leaving = exits ++ s.leaving := by
    have hExits : (exits.map CallRest.exitGrp : List (CallRest Id)).flatMap CallRest.leaving =
        exits := by
      rw [List.flatMap_map]
      exact (List.flatMap_pure_eq_map id exits).trans (List.map_id exits)
    rw [Nesting.leaving, hRests', hRests, List.flatMap_append, List.flatMap_append,
      List.flatMap_append, leaving_callBacks, hExits, List.flatMap_singleton]
    change [] ++ exits ++ [] ++ s.leaving = _
    rw [List.nil_append, List.append_nil]
  have hOwed : s'.owed = callbacks.map Callback.grp ++ (CallRest.answer gid err :
      CallRest Id).owed ++ s.owed := by
    have hExits : (exits.map CallRest.exitGrp : List (CallRest Id)).flatMap CallRest.owed = [] := by
      rw [List.flatMap_map]
      exact List.flatMap_eq_nil_iff.mpr fun _ _ => rfl
    rw [Nesting.owed, hRests', hRests, List.flatMap_append, List.flatMap_append,
      List.flatMap_append, owed_callBacks, hExits, List.append_nil, List.flatMap_singleton]
    rfl
  have hStep : (managerSystem ops).step f ⟨.getTokenGrp ring pri, ⟨some (gid, err), callbacks⟩⟩
      ⟨m', Seen.delivers ⟨some (gid, err), callbacks⟩ ++ f.held⟩ := by
    refine ⟨trivial, ?_, rfl⟩
    rw [ManagerCall.apply, hApply]
    rfl
  have hDelivers : Seen.delivers ⟨some (gid, err), callbacks⟩ =
      (CallRest.answer gid err : CallRest Id).owed ++ callbacks.map Callback.grp := by
    cases err <;> rfl
  have hPerm : (s'.held ++ s'.owed).Perm
      (Seen.delivers ⟨some (gid, err), callbacks⟩ ++ (s.held ++ s.owed)) := by
    rw [hHeld, hOwed, hDelivers]
    exact (List.perm_append_comm_assoc _ _ _).trans (List.perm_append_comm.append_right _)
  have hFlat : s'.Flat maxNodeNum _ :=
    h.of_step hStep (hLeaving ▸ hManager) hPerm (hLeaving ▸ hTidy) hTokenGrps hResources
  have hSome : rests ≠ [] := by
    rw [hRests]
    simp
  have hExits : ∀ rest ∈ (exits.map CallRest.exitGrp : List (CallRest Id)),
      rest.seen s'.manager = ⟨none, []⟩ := fun rest hRest => by
    obtain ⟨_, -, rfl⟩ := List.mem_map.mp hRest
    rfl
  obtain ⟨l, hEnd⟩ := hCallbacks
  have hTop : s.rests = [] ++ s.rests := rfl
  refine ⟨_, _, .one h hStep hFlat hTop hRests' (asCall_get hSome) rfl (List.forall_mem_nil _)
    ?_ ?_⟩
  · rw [hRests, List.map_append, List.map_append, List.flatMap_append, List.flatMap_append,
      flatMap_callBacks hEnd, callbacks_quiet hExits, List.append_nil]
    exact List.append_nil _
  · rw [hRests, List.map_append, List.map_append, List.filterMap_append, List.filterMap_append,
      filterMap_callBacks, answers_quiet hExits]
    rfl

/-- A get that makes no group for want of requests does the same without nesting
where it asks for more than there ever are. -/
theorem Answers.getNothing (h : s.Flat maxNodeNum f) {tokenGrpCache resourceCache : MemoryCache}
    {g : TokenReqgrp Id} {err : QosError}
    (hAlloc : s.manager.tokenGrpCache.alloc = some tokenGrpCache)
    (hInit : TokenReqgrp.tokenReqgrpInit s.manager.nextGrp s.manager.resourceCache ring.walk pri =
      (g, resourceCache, err)) (hErr : err ≠ .ok)
    (hManager : s'.manager =
      { s.manager with
        resourceCache := resourceCache
        tokenGrpCache := tokenGrpCache.free
        nextGrp       := s.manager.nextGrp + 1 })
    (hHeld : s'.held = s.held) (hRests' : s'.rests = s.rests) :
    ∃ tr f', Answers maxNodeNum s (.call (.getTokenGrp ring pri) []) s' f tr f' := by
  obtain ⟨caches, freed, hFlat⟩ := h.asCalls.manager
  obtain ⟨tokenGrpCache₂, hAlloc₂⟩ := h.alloc hAlloc
  obtain ⟨unit, hHolds⟩ := h.stocked.resources
  have hLong : unit.toNat <
      (ResourceRing.mk ring.rs (List.replicate unit.toNat ring.rs)).walk.length := by
    simp [ResourceRing.walk]
  obtain ⟨g₂, resourceCache₂, err₂, hInit₂, hErr₂⟩ :=
    tokenReqgrpInit_too_large hHolds hLong f.manager.nextGrp pri
  have hStep : (managerSystem ops).step f
      ⟨.getTokenGrp ⟨ring.rs, List.replicate unit.toNat ring.rs⟩ pri, ⟨none, []⟩⟩
      ⟨{ f.manager with
          resourceCache := resourceCache₂
          tokenGrpCache := tokenGrpCache₂.free
          nextGrp       := f.manager.nextGrp + 1 }, f.held⟩ := by
    refine ⟨trivial, ?_, rfl⟩
    rw [ManagerCall.apply, getTokenGrp_of_noRequest hAlloc₂ hInit₂ hErr₂]
    rfl
  have hOwed : s'.owed = s.owed := by
    rw [Nesting.owed, Nesting.owed, hRests']
  have hLeaving : s'.leaving = s.leaving := by
    rw [Nesting.leaving, Nesting.leaving, hRests']
  have hTokenGrps : tokenGrpCache₂.free.cacheUnit = s'.manager.tokenGrpCache.cacheUnit := by
    rw [hManager]
    exact (MemoryCache.Took.alloc hAlloc₂).unit_eq.trans
      (h.tokenGrps.trans (MemoryCache.Took.alloc hAlloc).unit_eq.symm)
  have hResources : resourceCache₂.cacheUnit = s'.manager.resourceCache.cacheUnit := by
    rw [hManager]
    exact (TokenReqgrp.tokenReqgrpInit_gives_back hInit₂ hErr₂).unit_eq.trans
      (h.resources.trans (TokenReqgrp.tokenReqgrpInit_gives_back hInit hErr).unit_eq.symm)
  have hManager' : ∃ caches freed, ({ f.manager with
      resourceCache := resourceCache₂
      tokenGrpCache := tokenGrpCache₂.free
      nextGrp       := f.manager.nextGrp + 1 } : Manager ops) =
        s'.manager.without s'.leaving caches freed := by
    refine ⟨(tokenGrpCache₂.free, resourceCache₂), freed, ?_⟩
    rw [hManager, hLeaving, hFlat]
    rfl
  have hPerm : (s'.held ++ s'.owed).Perm (s.held ++ s.owed) := by
    rw [hHeld, hOwed]
  have hTidy : s'.manager.Tidy maxNodeNum s'.leaving := by
    rw [hManager, hLeaving]
    exact h.tidy.noRequest hAlloc hInit hErr
  have hBoth : s'.Flat maxNodeNum _ :=
    h.of_step hStep hManager' hPerm hTidy hTokenGrps hResources
  have hTop : s.rests = [] ++ s.rests := rfl
  have hTop' : s'.rests = [] ++ s.rests := hRests'
  exact ⟨_, _, .one h hStep hBoth hTop hTop' rfl rfl (List.forall_mem_nil _) rfl rfl⟩

section Made

variable {tokenGrpCache resourceCache : MemoryCache} {g : TokenReqgrp Id} {m₁ m₂ : Manager ops}
  {err : QosError}
  (hAlloc : s.manager.tokenGrpCache.alloc = some tokenGrpCache)
  (hInit : TokenReqgrp.tokenReqgrpInit s.manager.nextGrp s.manager.resourceCache ring.walk pri =
    (g, resourceCache, .ok))
  (hIn : { s.manager with
    tokenGrpCache := tokenGrpCache
    resourceCache := resourceCache
    nextGrp       := s.manager.nextGrp + 1
    groups        := g :: s.manager.groups }.checkNodeInWhenGet ring.walk = some m₁)
  (hPlaced : m₁.tryToGetTokens .ok g.lheadReqgrp = (m₂, err))

include hAlloc hInit hIn hPlaced

omit hAlloc hInit in
theorem made_keepsGroups : KeepsGroups
    { s.manager with
      tokenGrpCache := tokenGrpCache
      resourceCache := resourceCache
      nextGrp       := s.manager.nextGrp + 1
      groups        := g :: s.manager.groups } m₂ := by
  have hStock := tryToGetTokens_stock g.lheadReqgrp m₁ .ok
  have hCaches := tryToGetTokens_caches g.lheadReqgrp m₁ .ok
  rw [hPlaced] at hStock hCaches
  exact (checkNodeInWhenGet_keepsGroups hIn).trans (.of_stock hStock hCaches.nextGrp_eq)

theorem Flat.made_tidy (h : s.Flat maxNodeNum f) : m₂.Tidy maxNodeNum s.leaving := by
  have hNew := h.tidy.newGroup hAlloc hInit
  have hStock := tryToGetTokens_stock g.lheadReqgrp m₁ .ok
  rw [hPlaced] at hStock
  obtain ⟨m, hIn', hStocked⟩ := hNew.stocked.checkNodeInWhenGet ring.walk
  obtain rfl := Option.some.inj (hIn'.symm.trans hIn)
  exact hNew.keeps (made_keepsGroups hIn hPlaced) (hStocked.congr hStock)

/-- Without nesting the same group is made. -/
theorem Flat.made (h : s.Flat maxNodeNum f) :
    ∃ tokenGrpCache₂ resourceCache₂ freed,
      f.manager.tokenGrpCache.alloc = some tokenGrpCache₂ ∧
      TokenReqgrp.tokenReqgrpInit f.manager.nextGrp f.manager.resourceCache ring.walk pri =
        (g, resourceCache₂, .ok) ∧
      { f.manager with
        tokenGrpCache := tokenGrpCache₂
        resourceCache := resourceCache₂
        nextGrp       := f.manager.nextGrp + 1
        groups        := g :: f.manager.groups }.checkNodeInWhenGet ring.walk =
          some (m₁.without s.leaving (tokenGrpCache₂, resourceCache₂) freed) ∧
      (m₁.without s.leaving (tokenGrpCache₂, resourceCache₂) freed).tryToGetTokens .ok
        g.lheadReqgrp = (m₂.without s.leaving (tokenGrpCache₂, resourceCache₂) freed, err) ∧
      m₂.Unqueued s.leaving ∧ tokenGrpCache₂.cacheUnit = m₂.tokenGrpCache.cacheUnit ∧
      resourceCache₂.cacheUnit = m₂.resourceCache.cacheUnit := by
  obtain ⟨caches, freed, hFlat⟩ := h.asCalls.manager
  have hNext : f.manager.nextGrp = s.manager.nextGrp := by
    rw [hFlat]
    rfl
  obtain ⟨tokenGrpCache₂, hAlloc₂⟩ := h.alloc hAlloc
  obtain ⟨resourceCache₂, hInit₂⟩ := h.init hInit
  obtain ⟨hFresh, -, hgid, -⟩ := TokenReqgrp.tokenReqgrpInit_spec hInit
  have hNew : g.gid ∉ s.leaving := hgid ▸ h.tidy.next_not_mem
  have hIn₂ : { f.manager with
      tokenGrpCache := tokenGrpCache₂
      resourceCache := resourceCache₂
      nextGrp       := f.manager.nextGrp + 1
      groups        := g :: f.manager.groups }.checkNodeInWhenGet ring.walk =
        some (m₁.without s.leaving (tokenGrpCache₂, resourceCache₂) freed) := by
    have hWithout : ({ s.manager with
        tokenGrpCache := tokenGrpCache
        resourceCache := resourceCache
        nextGrp       := s.manager.nextGrp + 1
        groups        := g :: s.manager.groups }.without s.leaving (tokenGrpCache₂, resourceCache₂)
          freed).checkNodeInWhenGet ring.walk =
            some (m₁.without s.leaving (tokenGrpCache₂, resourceCache₂) freed) := by
      rw [checkNodeInWhenGet_without, hIn]
      rfl
    rw [hFlat]
    unfold Manager.without at hWithout ⊢
    simp only [without_cons_of_new hNew] at hWithout ⊢
    exact hWithout
  have hUnqueued : ({ s.manager with
      tokenGrpCache := tokenGrpCache
      resourceCache := resourceCache
      nextGrp       := s.manager.nextGrp + 1
      groups        := g :: s.manager.groups } : Manager ops).Unqueued s.leaving := h.unqueued
  have hOwner : ∀ r ∈ g.lheadReqgrp, r.tokenGrp ∉ s.leaving := fun r hr => by
    rw [hFresh.owner r hr]
    exact hNew
  obtain ⟨hSame, hUnqueued₂⟩ := tryToGetTokens_without (tokenGrpCache₂, resourceCache₂) freed
    (hUnqueued.checkNodeInWhenGet hIn) hOwner .ok
  rw [hPlaced] at hSame hUnqueued₂
  have hKeeps := made_keepsGroups hIn hPlaced
  refine ⟨tokenGrpCache₂, resourceCache₂, freed, hAlloc₂, hNext ▸ hInit₂, hIn₂, hSame,
    hUnqueued₂, ?_, ?_⟩
  · rw [hKeeps.tokenGrps]
    exact (MemoryCache.Took.alloc hAlloc₂).unit_eq.trans
      (h.tokenGrps.trans (MemoryCache.Took.alloc hAlloc).unit_eq.symm)
  · rw [hKeeps.resources]
    exact (TokenReqgrp.tokenReqgrpInit_cache hInit₂).1.unit_eq.trans
      (h.resources.trans (TokenReqgrp.tokenReqgrpInit_cache hInit).1.unit_eq.symm)

/-- A get that makes a group, with its callbacks and the release of a group that
failed still to come. -/
theorem Answers.getMade (h : s.Flat maxNodeNum f) {m' : Manager ops} {rests : List (CallRest Id)}
    (hResult : (err = .ok ∨ err = .pending) ∧ m' = m₂ ∧ rests = [] ∨
      err ≠ .ok ∧ err ≠ .pending ∧ m₂.putTokens s.manager.nextGrp = some (m', rests))
    (hManager : s'.manager = m') (hHeld : s'.held = s.held)
    (hRests' : s'.rests = rests ++ [.answer s.manager.nextGrp err] ++ s.rests) :
    ∃ tr f', Answers maxNodeNum s (.call (.getTokenGrp ring pri)
      (rests ++ [.answer s.manager.nextGrp err])) s' f tr f' := by
  obtain ⟨tokenGrpCache₂, resourceCache₂, freed, hAlloc₂, hInit₂, hIn₂, hPlaced₂, hUnqueued,
    hTokenGrps, hResources⟩ := h.made hAlloc hInit hIn hPlaced
  have hTidy := h.made_tidy hAlloc hInit hIn hPlaced
  have hNext : f.manager.nextGrp = s.manager.nextGrp := by
    obtain ⟨_, _, hFlat⟩ := h.asCalls.manager
    rw [hFlat]
    rfl
  rcases hResult with ⟨hErr, rfl, rfl⟩ | ⟨hOk, hPending, hPut⟩
  · have hApply := getTokenGrp_of_answer hAlloc₂ hInit₂ hIn₂ hPlaced₂ hErr
    rw [hNext] at hApply
    subst hManager
    have hFlat' : ∃ caches freed', s'.manager.without s.leaving (tokenGrpCache₂, resourceCache₂)
        freed = s'.manager.without ([] ++ s.leaving) caches freed' := ⟨_, _, rfl⟩
    exact Answers.got h hApply hFlat' ⟨[], rfl⟩ hTidy hTokenGrps hResources hHeld rfl hRests'
  · obtain ⟨hFresh, hNeed, hgid, -⟩ := TokenReqgrp.tokenReqgrpInit_spec hInit₂
    have hApply := getTokenGrp_of_failed hAlloc₂ hInit₂ hIn₂ hPlaced₂ hOk hPending
    have hMade : GetMade f.manager ring _ g _ _ err :=
      ⟨hFresh, hgid, hNeed, ⟨(tokenGrpCache₂, resourceCache₂), hIn₂⟩, hPlaced₂,
        Or.inr ⟨hOk, hPending, rfl⟩⟩
    obtain ⟨g', hg', -⟩ := (hMade.effect h.inv.books h.fresh False.elim).placed.group
    have hOwner : ∀ r ∈ g'.lheadReqgrp, r.tokenGrp = s.manager.nextGrp := fun r hr =>
      (((hMade.effect h.inv.books h.fresh False.elim).placed.books.sound.group g'
        (mem_of_lookup hg')).owner r hr).trans ((key_of_lookup hg').trans hNext)
    rw [hNext] at hg' hApply
    rw [groups_without, group?_without h.tidy.next_not_mem] at hg'
    obtain ⟨hStock, hCaches, callbacks, g₂, hEnd, rfl, hg₂, hPut₂⟩ :=
      putTokens_without hUnqueued h.tidy.next_not_mem hg' hOwner hPut
    rw [hPut₂] at hApply
    subst hManager
    have hTidy' : s'.manager.Tidy maxNodeNum ([s.manager.nextGrp] ++ s.leaving) :=
      (hTidy.keeps (.of_stock hStock hCaches.nextGrp_eq) (hTidy.stocked.congr hStock)).leave
        (mem_gids_of_group? hg₂) h.tidy.next_not_mem
    rw [← hStock.tokenGrps] at hTokenGrps
    rw [← hStock.resources] at hResources
    exact Answers.got h hApply ⟨_, _, rfl⟩ hEnd hTidy' hTokenGrps
      ((tokenReqgrpExit_unit g₂ _).trans hResources) hHeld rfl hRests'

end Made

/-- `get_token_grp`, up to where the application has control again. -/
theorem Answers.get (h : s.Flat maxNodeNum f) {rests : List (CallRest Id)}
    (hEnter : s.manager.getTokens ring pri = some (s'.manager, rests)) (hHeld : s'.held = s.held)
    (hRests' : s'.rests = rests ++ s.rests) :
    ∃ tr f', Answers maxNodeNum s (.call (.getTokenGrp ring pri) rests) s' f tr f' := by
  obtain ⟨m', hManager⟩ : ∃ m', s'.manager = m' := ⟨_, rfl⟩
  rw [hManager] at hEnter
  cases getTokens_way hEnter with
  | noGroup _ =>
    have hTop : s.rests = [] ++ s.rests := rfl
    have hPerm : (s'.held ++ s'.owed).Perm (s.held ++ s.owed) := by
      rw [hHeld, Nesting.owed, Nesting.owed, hRests']
      rfl
    have hLeaving : s'.leaving = s.leaving := by
      rw [Nesting.leaving, Nesting.leaving, hRests']
      rfl
    exact ⟨[], f, .silent h (h.move hManager hLeaving hPerm) hTop hRests' rfl rfl rfl⟩
  | noRequest hAlloc hInit hErr =>
    exact Answers.getNothing h hAlloc hInit hErr hManager hHeld hRests'
  | made hAlloc hInit hIn hPlaced hResult =>
    exact Answers.getMade hAlloc hInit hIn hPlaced h hResult hManager hHeld hRests'

end Nesting

end DatastorQos
