import DatastorQos.App.ManagerBooks

/-!
# datastor_qos — get keeps the books

`get_token_grp` makes a group, brings the nodes it names online, and places its
requests one by one. The value it returns is the one the last request was
placed with; `tryToGetTokens_effect` shows that this is the verdict of the group
if it is settled by then, and `QOS_ERROR_PENDING` if it is not.
-/

namespace DatastorQos

open Keyed GrpHeap

variable {Id : Type} {ops : IdOps Id} {fenced calm : Prop} {unplaced freed : List ReqPtr}
  {r : TokenReq Id} {m m₁ m' : Manager ops} {id : Id} {gid : GrpPtr}

-- ---------------------------------------------------------------------------
-- The nodes named come online
-- ---------------------------------------------------------------------------

/-- A node that comes online is nothing to the groups, -/
theorem nodeOnline_groups (h : m.nodeOnline id = some m') : m'.groups = m.groups := by
  cases Manager.nodeOnline_way h <;> rfl

/-- nor are all those of a get, -/
theorem checkNodeInWhenGet_groups {rs : List (Resource Id)}
    (h : m.checkNodeInWhenGet rs = some m') : m'.groups = m.groups :=
  Manager.checkNodeInWhenGet_rule (R := fun m m' => m'.groups = m.groups) (fun _ => rfl)
    (fun hOnline hRest => hRest.trans (nodeOnline_groups hOnline)) h

/-- nor to the caches of the groups, -/
theorem nodeOnline_groupCaches (h : m.nodeOnline id = some m') :
    m'.tokenGrpCache = m.tokenGrpCache ∧ m'.resourceCache = m.resourceCache := by
  cases Manager.nodeOnline_way h <;> exact ⟨rfl, rfl⟩

/-- one after the other. -/
theorem checkNodeInWhenGet_groupCaches {rs : List (Resource Id)}
    (h : m.checkNodeInWhenGet rs = some m') :
    m'.tokenGrpCache = m.tokenGrpCache ∧ m'.resourceCache = m.resourceCache :=
  Manager.checkNodeInWhenGet_rule
    (R := fun m m' => m'.tokenGrpCache = m.tokenGrpCache ∧ m'.resourceCache = m.resourceCache)
    (fun _ => ⟨rfl, rfl⟩)
    (fun hOnline hRest =>
      ⟨hRest.1.trans (nodeOnline_groupCaches hOnline).1,
        hRest.2.trans (nodeOnline_groupCaches hOnline).2⟩) h

/-- From `m` to `m'` nodes came online, and no other changed. -/
structure NodesJoin (m m' : Manager ops) : Prop where
  kept : ∀ id n, m.node? id = some n → m'.node? id = some n
  new  : ∀ id n, m'.node? id = some n →
    m.node? id = some n ∨ m.node? id = none ∧ ∃ version, n = .init version

theorem NodesJoin.refl (m : Manager ops) : NodesJoin m m :=
  ⟨fun _ _ hn => hn, fun _ _ hn => Or.inl hn⟩

/-- Nodes that join one after the other. -/
theorem NodesJoin.trans (a : NodesJoin m m₁) (b : NodesJoin m₁ m') : NodesJoin m m' where
  kept := fun id n hn => b.kept id n (a.kept id n hn)
  new  := by
    intro id n hn
    rcases b.new id n hn with hn | ⟨hNone, version, rfl⟩
    · exact a.new id n hn
    · refine Or.inr ⟨Option.eq_none_iff_forall_not_mem.mpr fun n₀ hn₀ => ?_, version, rfl⟩
      rw [a.kept id n₀ hn₀] at hNone
      cases hNone

/-- A node joins, and those there stay as they are. -/
theorem nodeOnline_joins (h : m.nodeOnline id = some m') : NodesJoin m m' := by
  cases Manager.nodeOnline_way h with
  | noItem _ => exact .refl m
  | @joined _ table _ hInsert =>
    have hFind := fun x => HashTable.find_insert (x := x) hInsert
    have hOff : ∀ x, ops.Same id x → m.node? x = none := fun x hSame =>
      (HashTable.find_congr hSame).symm.trans (hFind id).1
    refine ⟨fun x nx hx => ?_, fun x nx hx => ?_⟩
    · rw [show Manager.node? _ x = table.find x from rfl, (hFind x).2, if_neg fun hSame => ?_]
      · exact hx
      · rw [hOff x hSame] at hx
        cases hx
    · rw [show Manager.node? _ x = table.find x from rfl, (hFind x).2] at hx
      split at hx
      · rename_i hSame
        exact Or.inr ⟨hOff x hSame, _, (Option.some.inj hx).symm⟩
      · exact Or.inl hx
  | @known _ table _ hInsert =>
    have hSame : ∀ x, table.find x = m.node? x := fun x => HashTable.find_insert_exist hInsert
    exact ⟨fun x nx hx => (hSame x).trans hx, fun x nx hx => Or.inl ((hSame x).symm.trans hx)⟩

/-- The nodes of a get join, by the rule for them. -/
theorem checkNodeInWhenGet_joins {rs : List (Resource Id)}
    (h : m.checkNodeInWhenGet rs = some m') : NodesJoin m m' :=
  Manager.checkNodeInWhenGet_rule (R := NodesJoin) .refl
    (fun hOnline hRest => (nodeOnline_joins hOnline).trans hRest) h

/-- None of them is on any books. -/
theorem checkNodeInWhenGet_effect {rs : List (Resource Id)} (ha : m.Books fenced calm unplaced freed)
    (h : m.checkNodeInWhenGet rs = some m') (hVersion : fenced → m'.version ≤ 2 ^ 32) :
    OpEffect fenced calm m [] unplaced freed m' := by
  induction rs generalizing m with
  | nil =>
    obtain rfl := Option.some.inj h
    exact .refl ha
  | cons rs rest ih =>
    unfold Manager.checkNodeInWhenGet at h
    split at h
    · exact ih ha h
    · obtain ⟨m₁, hOnline, hRest⟩ := Option.bind_eq_some_iff.mp h
      have hFirst := nodeOnline_effect ha hOnline fun hFenced =>
        Nat.le_trans (checkNodeInWhenGet_fences hRest).version_le (hVersion hFenced)
      exact hFirst.trans (ih hFirst.books hRest)

-- ---------------------------------------------------------------------------
-- The requests are placed
-- ---------------------------------------------------------------------------

/-- The value a group answers with: its verdict once it is settled. -/
def TokenReqgrp.answer (g : TokenReqgrp Id) : QosError :=
  if g.initNr = 0 then g.err else .pending

theorem tryToAllocFromManager_caches (m : Manager ops) (r : TokenReq Id) :
    SameCaches m (m.tryToAllocFromManager r).1 := by
  unfold Manager.tryToAllocFromManager
  split <;> exact ⟨rfl, rfl, rfl⟩

theorem tryToGetTokens_caches (rips : List (TokenReq Id)) (m : Manager ops) (err : QosError) :
    SameCaches m (m.tryToGetTokens err rips).1 := by
  induction rips generalizing m err with
  | nil => exact .refl m
  | cons r rest ih => exact (tryToAllocFromManager_caches m r).trans (ih _ _)

/-- A request is placed on its node, or failed where there is none. -/
theorem tryToAllocFromManager_effect (ha : m.Books fenced calm (r.ptr :: unplaced) freed)
    (hr : r ∈ m.groups.reqs) (hInit : r.stat = .init) :
    PlaceEffect ops fenced calm m.version m.groups r unplaced freed (m.tryToAllocFromManager r).1.node?
      (m.tryToAllocFromManager r).1.groups (m.tryToAllocFromManager r).2 := by
  unfold Manager.tryToAllocFromManager
  split
  · exact PlaceEffect.of_resolved ha.sound hr (ha.sound.toFailed hr hInit) (ha.fail hr hInit)
  · rename_i item hItem
    have he := allocResource_effect ha hr hInit hItem
    rwa [← node?_setNode (h := (item.allocResource m.groups r.needList).2.1) hItem] at he

/-- What placing the requests of group `gid` leaves behind: `err` is what the
group answers. -/
structure PlacedEffect (fenced calm : Prop) (m : Manager ops) (gid : GrpPtr) (m' : Manager ops)
    (err : QosError) : Prop where
  books  : m'.Books fenced calm [] []
  group  : ∃ g', group? m'.groups gid = some g' ∧ err = g'.answer
  rest   : ∀ gid', gid' ≠ gid → group? m'.groups gid' = group? m.groups gid'

/-- The get loop, over the requests not yet placed. -/
theorem tryToGetTokens_effect (err : QosError) (rips : List (TokenReq Id))
    (ha : m.Books fenced calm (rips.map TokenReq.ptr) [])
    (hMine : ∀ r ∈ rips, r ∈ m.groups.reqs ∧ r.stat = .init ∧ r.tokenGrp = gid)
    (hErr : rips = [] → ∃ g, group? m.groups gid = some g ∧ err = g.answer) :
    PlacedEffect fenced calm m gid (m.tryToGetTokens err rips).1 (m.tryToGetTokens err rips).2 := by
  induction rips generalizing m err with
  | nil => exact ⟨ha, hErr rfl, fun _ _ => rfl⟩
  | cons r rest ih =>
    obtain ⟨hr, hInit, hgid⟩ := hMine r List.mem_cons_self
    have hNodup := ha.unplaced_nodup
    rw [List.map_cons] at ha hNodup
    have hPlace := tryToAllocFromManager_effect ha hr hInit
    have hCaches := tryToAllocFromManager_caches m r
    unfold Manager.tryToGetTokens
    generalize m.tryToAllocFromManager r = res at hPlace hCaches ⊢
    obtain ⟨m₁, err₁⟩ := res
    simp only at hPlace hCaches ⊢
    have hBooks : m₁.Books fenced calm (rest.map TokenReq.ptr) [] := by
      have := hPlace.accounts
      rwa [← hCaches.version_eq] at this
    have hRest := ih err₁ hBooks
      (fun x hx => by
        obtain ⟨hxr, hxInit, hxgid⟩ := hMine x (List.mem_cons_of_mem _ hx)
        refine ⟨hPlace.others x hxr fun hp => ?_, hxInit, hxgid⟩
        exact (List.nodup_cons.mp hNodup).1 (hp ▸ List.mem_map_of_mem hx))
      (fun _ => hgid ▸ hPlace.group)
    refine ⟨hRest.books, hRest.group, fun gid' hne => ?_⟩
    rw [hRest.rest gid' hne, hPlace.rest gid' (hgid ▸ hne)]

-- ---------------------------------------------------------------------------
-- The whole call
-- ---------------------------------------------------------------------------

/-- Group `g` was made and its requests placed. -/
structure GetPlaced (fenced calm : Prop) (m m' : Manager ops) (g : TokenReqgrp Id) : Prop where
  books      : m'.Books fenced calm [] []
  new        : group? m'.groups m.nextGrp = some g
  old        : ∀ gid, gid ≠ m.nextGrp → group? m'.groups gid = group? m.groups gid
  freed_eq   : m'.freed = m.freed
  nextGrp_eq : m'.nextGrp = m.nextGrp + 1

/-- What a get leaves behind. -/
inductive GetEffect (fenced calm : Prop) (m : Manager ops) :
    Manager.GetResult ops → Prop where
  | memory (m' : Manager ops) (books : m'.Books fenced calm [] []) (groups_eq : m'.groups = m.groups)
      (freed_eq : m'.freed = m.freed) (nextGrp_le : m.nextGrp ≤ m'.nextGrp) :
      GetEffect fenced calm m ⟨m', none, .memory, []⟩
  | placed (m' : Manager ops) (g : TokenReqgrp Id) (made : GetPlaced fenced calm m m' g)
      (answer : g.answer = .ok ∨ g.answer = .pending) :
      GetEffect fenced calm m ⟨m', some m.nextGrp, g.answer, []⟩
  | released (m₁ m' : Manager ops) (g : TokenReqgrp Id) (h : GrpHeap Id)
      (callbacks : List Callback) (made : GetPlaced fenced calm m m₁ g) (settled : g.initNr = 0)
      (err_eq : g.err = .failedNode) (put : PutEffect fenced calm m₁ g callbacks h m') :
      GetEffect fenced calm m ⟨m', some m.nextGrp, .failedNode, callbacks⟩

/-- A group is still to be told, or has its verdict. -/
theorem TokenReqgrp.answer_cases {g : TokenReqgrp Id} (hs : g.Sound) :
    g.answer = .pending ∧ g.initNr ≠ 0 ∨ g.initNr = 0 ∧ g.answer = g.err ∧
      (g.err = .ok ∨ g.err = .failedNode) := by
  unfold TokenReqgrp.answer
  by_cases hz : g.initNr = 0
  · have hErr := hs.err_eq
    rw [if_pos hz] at hErr
    refine Or.inr ⟨hz, if_pos hz, ?_⟩
    rw [hErr]
    unfold TokenReqgrp.verdictFlag
    split <;> simp
  · exact Or.inl ⟨if_neg hz, hz⟩

/-- A group none of whose requests failed is not told that one did. -/
theorem TokenReqgrp.Sound.err_ne_failedNode {g : TokenReqgrp Id} (hs : g.Sound)
    (hNone : ∀ r ∈ g.lheadReqgrp, r.stat ≠ .failed) : g.err ≠ .failedNode := by
  intro hFailed
  have hErr := hs.err_eq
  rw [hFailed] at hErr
  split at hErr
  · unfold TokenReqgrp.verdictFlag at hErr
    split at hErr
    · rename_i hExist
      obtain ⟨r, hr, hStat⟩ := hs.failed_iff.mp hExist
      exact hNone r hr hStat
    · cases hErr
  · cases hErr

namespace Manager.GetMade

variable {ring : ResourceRing Id} {res : GetResult ops} {g g' : TokenReqgrp Id} {m₂ : Manager ops}
  {err : QosError}

/-- The resources asked for are those of the ring. -/
theorem need_mem (hMade : GetMade m ring res g m₁ m₂ err) (hr : r ∈ g.lheadReqgrp) :
    r.tokenNeed ∈ ring.walk := by
  rw [← List.mem_reverse, ← hMade.need]
  exact List.mem_map_of_mem hr

/-- The requests of a group name its nodes as the get did. -/
theorem need_pairwise (hMade : GetMade m ring res g m₁ m₂ err)
    (hDistinct : ring.walk.Pairwise fun a b => ¬ ops.Same a.id b.id) :
    g.lheadReqgrp.Pairwise fun a b => ¬ ops.Same a.tokenNeed.id b.tokenNeed.id := by
  have hNeeds : (g.lheadReqgrp.map TokenReq.tokenNeed).Pairwise
      fun a b => ¬ ops.Same a.id b.id := by
    rw [hMade.need, List.pairwise_reverse]
    exact hDistinct.imp fun hab hSame => hab hSame.symm
  exact List.pairwise_map.mp hNeeds

/-- A get that fails misses a node. -/
theorem failed (hAnswer : err = g'.answer) (hs : g'.Sound) (hNotOk : err ≠ .ok)
    (hNotPending : err ≠ .pending) : g'.initNr = 0 ∧ err = g'.err ∧ g'.err = .failedNode := by
  obtain ⟨hp, -⟩ | ⟨hz, hErr, hOk | hFailed⟩ := TokenReqgrp.answer_cases hs
  · exact absurd (hAnswer.trans hp) hNotPending
  · exact absurd (hAnswer.trans (hErr.trans hOk)) hNotOk
  · exact ⟨hz, hAnswer.trans hErr, hFailed⟩

/-- Where no request failed, the group is not put. -/
theorem res_eq (hMade : GetMade m ring res g m₁ m₂ err) (hAnswer : err = g'.answer) (hs : g'.Sound)
    (hNone : ∀ r ∈ g'.lheadReqgrp, r.stat ≠ .failed) : res = ⟨m₂, some m.nextGrp, err, []⟩ := by
  rcases hMade.result with ⟨-, hRes⟩ | ⟨hNotOk, hNotPending, -⟩
  · exact hRes
  · exact absurd (failed hAnswer hs hNotOk hNotPending).2.2 (hs.err_ne_failedNode hNone)

end Manager.GetMade

/-- What a get has done when the requests of its group `g` are placed: the nodes
it names came online, and the books know `g`. -/
structure MadeEffect (fenced calm : Prop) (m : Manager ops) (g : TokenReqgrp Id)
    (m₁ m₂ : Manager ops) (err : QosError) : Prop where
  online     : m₁.Books fenced calm (g.lheadReqgrp.map TokenReq.ptr) []
  groups_eq  : m₁.groups = g :: m.groups
  new        : group? m₁.groups m.nextGrp = some g
  placed     : PlacedEffect fenced calm m₁ m.nextGrp m₂ err
  freed_eq   : m₂.freed = m.freed
  nextGrp_eq : m₂.nextGrp = m.nextGrp + 1

/-- **A get** that made a group placed all its requests, and answers as they fared. -/
theorem Manager.GetMade.effect {ring : ResourceRing Id} {res : GetResult ops} {g : TokenReqgrp Id}
    {m₂ : Manager ops} {err : QosError} (hMade : GetMade m ring res g m₁ m₂ err)
    (ha : m.Books fenced calm [] []) (hFresh : ∀ g ∈ m.groups, g.gid < m.nextGrp)
    (hVersion : fenced → m₁.version ≤ 2 ^ 32) : MadeEffect fenced calm m g m₁ m₂ err := by
  have hNew : group? m.groups g.gid = none := by
    rw [hMade.gid]
    exact lookup_eq_none_iff.mpr fun x hx => Nat.ne_of_lt (hFresh x hx)
  have hBooks := ha.newGroup (hMade.fresh.sound hMade.nonempty) hMade.fresh.stat_init hNew
  obtain ⟨caches, hIn⟩ := hMade.online
  have hGroups : m₁.groups = g :: m.groups := checkNodeInWhenGet_groups hIn
  have hg : group? m₁.groups m.nextGrp = some g := by
    rw [hGroups, group?_cons, if_pos hMade.gid]
  have hOnline := checkNodeInWhenGet_effect hBooks hIn hVersion
  have hCaches := tryToGetTokens_caches g.lheadReqgrp m₁ .ok
  have hPlaced := tryToGetTokens_effect .ok _ hOnline.books
    (fun r hr => ⟨mem_reqs.mpr ⟨g, mem_of_lookup hg, hr⟩, hMade.fresh.stat_init r hr,
      (hMade.fresh.owner r hr).trans hMade.gid⟩)
    fun hNil => absurd hNil hMade.nonempty
  rw [hMade.placed] at hCaches hPlaced
  exact ⟨hOnline.books, hGroups, hg, hPlaced, hCaches.freed_eq.trans hOnline.freed_eq,
    hCaches.nextGrp_eq.trans hOnline.nextGrp_eq⟩

/-- `get_token_grp` keeps the books, and answers for the group it made. -/
theorem getTokenGrp_effect {ring : ResourceRing Id} {pri : Nat} {res : Manager.GetResult ops}
    (ha : m.Books fenced calm [] []) (hFresh : ∀ g ∈ m.groups, g.gid < m.nextGrp)
    (h : m.getTokenGrp ring pri = some res) (hVersion : fenced → res.manager.version ≤ 2 ^ 32) :
    GetEffect fenced calm m res := by
  rcases Manager.getTokenGrp_cases h with hNothing | ⟨g, m₁, m₂, err, hMade⟩
  · obtain ⟨m', grp, err, callbacks⟩ := res
    obtain ⟨rfl, rfl, rfl, hGroups, hFreed, hTable, hSame, hNext⟩ := hNothing
    simp only at hGroups hFreed hTable hSame hNext
    refine .memory m' ?_ hGroups hFreed hNext
    have hNode : m'.node? = m.node? := by
      unfold Manager.node?
      rw [hTable]
    rw [Manager.Books, hNode, hGroups, hSame]
    exact ha
  · have hVersion₁ : fenced → m₁.version ≤ 2 ^ 32 := by
      intro hFenced
      have hCaches := tryToGetTokens_caches g.lheadReqgrp m₁ .ok
      rw [hMade.placed] at hCaches
      have hLe : m₁.version ≤ res.manager.version := by
        rw [← hCaches.version_eq]
        rcases hMade.result with ⟨-, rfl⟩ | ⟨-, -, rfl⟩
        · exact Nat.le_refl _
        · exact (putTokenGrp_fences m₂ m.nextGrp none).version_le
      exact Nat.le_trans hLe (hVersion hFenced)
    have he := hMade.effect ha hFresh hVersion₁
    obtain ⟨g', hg', hErr⟩ := he.placed.group
    have hMade' : GetPlaced fenced calm m m₂ g' := by
      refine ⟨he.placed.books, hg', fun gid hne => ?_, he.freed_eq, he.nextGrp_eq⟩
      rw [he.placed.rest gid hne, he.groups_eq, group?_cons, if_neg (hMade.gid ▸ hne.symm)]
    rcases hMade.result with ⟨hAnswer, rfl⟩ | ⟨hNotOk, hNotPending, rfl⟩
    · rw [hErr] at hAnswer ⊢
      exact .placed m₂ g' hMade' hAnswer
    · have hSound := hMade'.books.sound.group g' (mem_of_lookup hg')
      obtain ⟨hz, hVerdict, hFailed⟩ := Manager.GetMade.failed hErr hSound hNotOk hNotPending
      have hgid := key_of_lookup hg'
      have hg'' := hg'
      rw [← hgid] at hg''
      obtain ⟨h', hPut⟩ := putTokenGrp_effect hMade'.books hg'' hz none fun _ => rfl
      rw [hVerdict, hFailed]
      exact .released m₂ _ g' h' _ hMade' hz hFailed (hgid ▸ hPut)

end DatastorQos
