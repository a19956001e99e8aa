import DatastorQos.App.Manager
import DatastorQos.Table.ListHead

/-!
# token_reqgrp_manager — the ring a caller passes, link by link

`get_token_grp` and `put_token_grp` once more, with what they do to the links of
the caller's ring: they link a local head into it, and walk it from there. The
memory here is that of the ring and of the head; all that the library links are
nodes of its own. The rest of both operations is that of `Manager`
(`getTokenGrpLinks_result`, `putTokenGrpLinks_eq`).

* `get_hands_ring_back` — however a get returns, all links of the ring are as
  they were before;
* `put_keeps_ring` — a put is not done with the ring: its head stays linked.
-/

namespace DatastorQos

open LinkedRing

variable {Id : Type} {ops : IdOps Id}

namespace Manager

/-- The loop of `init_rip_list_by_rs_list`, which a request that cannot be
allocated ends. -/
def initRipOne (rsAt : ListHeadPtr → Resource Id) (s : TokenReqgrp Id × MemoryCache × QosError)
    (pos : ListHeadPtr) : Option ((TokenReqgrp Id × MemoryCache × QosError) × Bool) :=
  match s.1.allocToken s.2.1 (rsAt pos) with
  | some (r, cache) => some ((s.1.addReq r, cache, .ok), true)
  | none => some ((s.1, s.2.1, .memory), false)

/-- The loop of `check_node_in_when_get`. -/
def checkNodeInOne (rsAt : ListHeadPtr → Resource Id) (m : Manager ops) (pos : ListHeadPtr) :
    Option (Manager ops × Bool) :=
  match m.node? (rsAt pos).id with
  | some _ => some (m, true)
  | none => (m.nodeOnline (rsAt pos).id).map fun m => (m, true)

/-- The loop of `check_node_out_when_put`. -/
def checkNodeOutOne (rsAt : ListHeadPtr → Resource Id) (s : Manager ops × List Callback)
    (pos : ListHeadPtr) : Option ((Manager ops × List Callback) × Bool) :=
  match s.1.node? (rsAt pos).id with
  | some _ =>
    let (m, callbacks) := s.1.nodeOffline (rsAt pos).id
    some ((m, s.2 ++ callbacks), true)
  | none => some (s, true)

/-- A get, with the links it leaves and what the loops of
`init_rip_list_by_rs_list` and `check_node_in_when_get` visited. -/
structure GetLinks (ops : IdOps Id) where
  result  : GetResult ops
  mem     : ListMem
  inited  : List ListHeadPtr
  checked : List ListHeadPtr

/-- The end of `get_token_grp`, for the group that it made. -/
def finishGet (m : Manager ops) (gid : GrpPtr) (reqs : List (TokenReq Id)) : GetResult ops :=
  match m.tryToGetTokens .ok reqs with
  | (m, .ok) => ⟨m, some gid, .ok, []⟩
  | (m, .pending) => ⟨m, some gid, .pending, []⟩
  | (m, err) =>
    let (m, callbacks) := m.putTokenGrp gid none
    ⟨m, some gid, err, callbacks⟩

/-- `get_token_grp`, of the ring that `rs` is in, with its local `head`. -/
def getTokenGrpLinks (fuel : Nat) (m : Manager ops) (mem : ListMem)
    (rsAt : ListHeadPtr → Resource Id) (rs head : ListHeadPtr) (pri : Nat) :
    Option (GetLinks ops) :=
  let mem := (mem.listheadInit head).listAdd head rs
  match m.tokenGrpCache.alloc with
  | none => some ⟨⟨m, none, .memory, []⟩, mem.listDel head, [], []⟩
  | some tokenGrpCache => do
    let gid := m.nextGrp
    let m := { m with tokenGrpCache := tokenGrpCache, nextGrp := gid + 1 }
    let ((g, resourceCache, err), inited) ←
      ListMem.listForEachSafe (fun _ => mem) fuel head (initRipOne rsAt)
        (TokenReqgrp.fillNormalVal gid pri, m.resourceCache, .ok)
    if err = .ok then
      let m := { m with resourceCache := resourceCache, groups := g :: m.groups }
      let (m, checked) ←
        ListMem.listForEachSafe (fun _ => mem) fuel head (checkNodeInOne rsAt) m
      return ⟨m.finishGet gid g.lheadReqgrp, mem.listDel head, inited, checked⟩
    else
      let m := { m with
        resourceCache := g.clearTokenGrpResource resourceCache
        tokenGrpCache := m.tokenGrpCache.free }
      return ⟨⟨m, none, .memory, []⟩, mem.listDel head, inited, []⟩

/-- A put, with the links it leaves and what the loop of
`check_node_out_when_put` visited. -/
structure PutLinks (ops : IdOps Id) where
  manager   : Manager ops
  callbacks : List Callback
  mem       : ListMem
  checked   : List ListHeadPtr

/-- `put_token_grp`, of the ring that `failRs` is in, with its local `failHead`. -/
def putTokenGrpLinks (fuel : Nat) (m : Manager ops) (mem : ListMem)
    (rsAt : ListHeadPtr → Resource Id) (gid : GrpPtr) (failRs : Option ListHeadPtr)
    (failHead : ListHeadPtr) : Option (PutLinks ops) := do
  let mem := mem.listheadInit failHead
  let mem := match failRs with
    | some rs => mem.listAdd failHead rs
    | none => mem
  let ((m, callbacks), checked) ←
    ListMem.listForEachSafe (fun _ => mem) fuel failHead (checkNodeOutOne rsAt) (m, [])
  match m.groups.group? gid with
  | none => return ⟨m, callbacks, mem, checked⟩
  | some g =>
    let (m, relative) := m.tryToPutTokens [] (g.lheadReqgrp.map TokenReq.ptr)
    return ⟨m.freeGroup gid, callbacks ++ endTokenGrps m.groups relative, mem, checked⟩

-- ---------------------------------------------------------------------------
-- The loops, element by element
-- ---------------------------------------------------------------------------

variable {m : Manager ops} {mem : ListMem} {rsAt : ListHeadPtr → Resource Id}
  {rs head : ListHeadPtr} {others l : List ListHeadPtr} {fuel : Nat}

/-- A walk that writes no link. -/
theorem listForEachSafe_eq {σ : Type} (hRing : Ring mem head l) (hFuel : l.length < fuel)
    (body : σ → ListHeadPtr → Option (σ × Bool)) (s : σ) :
    ListMem.listForEachSafe (fun _ => mem) fuel head body s = visit body l s :=
  walk_eq (I := fun _ => True) (fun _ _ => hRing) (fun _ _ _ _ _ _ _ => trivial) hFuel trivial

/-- The requests are made for the elements in their order, and the loop ends at
the first that cannot be. -/
theorem visit_initRipOne (rsAt : ListHeadPtr → Resource Id) (l : List ListHeadPtr)
    (g : TokenReqgrp Id) (cache : MemoryCache) :
    ∃ visited, visit (initRipOne rsAt) l (g, cache, .ok) =
        some (g.initRipListByRsList cache (l.map rsAt), visited) ∧
      ((g.initRipListByRsList cache (l.map rsAt)).2.2 = .ok ∧ visited = l ∨
        (g.initRipListByRsList cache (l.map rsAt)).2.2 = .memory ∧
          ∃ before failed after, l = before ++ failed :: after ∧ visited = before ++ [failed] ∧
            before.length + g.lheadReqgrp.length =
              (g.initRipListByRsList cache (l.map rsAt)).1.lheadReqgrp.length) := by
  induction l generalizing g cache with
  | nil => exact ⟨[], rfl, Or.inl ⟨rfl, rfl⟩⟩
  | cons pos l ih =>
    rw [List.map_cons, TokenReqgrp.initRipListByRsList]
    cases hAlloc : g.allocToken cache (rsAt pos) with
    | none =>
      refine ⟨[pos], ?_, Or.inr ⟨rfl, [], pos, l, rfl, rfl, ?_⟩⟩
      · simp [visit, initRipOne, hAlloc]
      · simp
    | some res =>
      obtain ⟨r, cache'⟩ := res
      obtain ⟨visited, hVisit, hCases⟩ := ih (g.addReq r) cache'
      refine ⟨pos :: visited, ?_, ?_⟩
      · simp [visit, initRipOne, hAlloc, hVisit]
      · rcases hCases with ⟨hOk, rfl⟩ | ⟨hMemory, before, failed, after, rfl, rfl, hLength⟩
        · exact Or.inl ⟨hOk, rfl⟩
        · refine Or.inr ⟨hMemory, pos :: before, failed, after, rfl, rfl, ?_⟩
          rw [← hLength]
          simp [TokenReqgrp.addReq]
          omega

theorem visit_checkNodeInOne (rsAt : ListHeadPtr → Resource Id) (l : List ListHeadPtr)
    (m : Manager ops) :
    visit (checkNodeInOne rsAt) l m =
      (m.checkNodeInWhenGet (l.map rsAt)).map fun m => (m, l) := by
  induction l generalizing m with
  | nil => rfl
  | cons pos l ih =>
    rw [List.map_cons, checkNodeInWhenGet, visit, checkNodeInOne]
    cases hNode : m.node? (rsAt pos).id with
    | some item =>
      simp only [Option.bind_eq_bind, Option.bind_some, if_true, ih]
      cases m.checkNodeInWhenGet (l.map rsAt) <;> rfl
    | none =>
      simp only
      cases m.nodeOnline (rsAt pos).id with
      | none => rfl
      | some m₁ =>
        simp only [Option.map_some, Option.bind_eq_bind, Option.bind_some, if_true, ih]
        cases m₁.checkNodeInWhenGet (l.map rsAt) <;> rfl

theorem visit_checkNodeOutOne (rsAt : ListHeadPtr → Resource Id) (l : List ListHeadPtr)
    (m : Manager ops) (callbacks : List Callback) :
    visit (checkNodeOutOne rsAt) l (m, callbacks) =
      some (((m.checkNodeOutWhenPut (l.map rsAt)).1,
        callbacks ++ (m.checkNodeOutWhenPut (l.map rsAt)).2), l) := by
  induction l generalizing m callbacks with
  | nil => simp [visit, checkNodeOutWhenPut]
  | cons pos l ih =>
    rw [List.map_cons, checkNodeOutWhenPut, visit, checkNodeOutOne]
    cases hNode : m.node? (rsAt pos).id with
    | some item =>
      simp only [Option.bind_eq_bind, Option.bind_some, if_true, ih]
      simp [List.append_assoc]
    | none =>
      simp only [Option.bind_eq_bind, Option.bind_some, if_true, ih]
      simp

-- ---------------------------------------------------------------------------
-- The local head
-- ---------------------------------------------------------------------------

/-- The ring, with the local head in it. -/
theorem ring_with_head (hRing : Ring mem rs others) (hHead : head ∉ rs :: others) :
    Ring ((mem.listheadInit head).listAdd head rs) rs (head :: others) :=
  (hRing.loop_other hHead).link_first hHead

/-- What the head sees: the element named comes last. -/
theorem ring_from_head (hRing : Ring mem rs others) (hHead : head ∉ rs :: others) :
    Ring ((mem.listheadInit head).listAdd head rs) head (others ++ [rs]) := by
  have hIn : Ring _ rs ([] ++ head :: others) := ring_with_head hRing hHead
  exact hIn.rotate

/-- All links of the nodes are as they were before, and none leads to `head`. -/
def HandedBack (mem mem' : ListMem) (head : ListHeadPtr) (nodes : List ListHeadPtr) : Prop :=
  ∀ x ∈ nodes, (mem'.next x = mem.next x ∧ mem'.prev x = mem.prev x) ∧
    mem'.next x ≠ head ∧ mem'.prev x ≠ head

/-- `list_del(&head)` hands the ring back. -/
theorem handedBack_listDel (hRing : Ring mem rs others) (hHead : head ∉ rs :: others) :
    HandedBack mem (((mem.listheadInit head).listAdd head rs).listDel head) head
      (rs :: others) := by
  intro x hx
  have hxHead : x ≠ head := fun heq => hHead (heq ▸ hx)
  have hrsHead : head ≠ rs := fun heq => hHead (heq ▸ List.mem_cons_self)
  have hLinks : (((mem.listheadInit head).listAdd head rs).listDel head).next x = mem.next x ∧
      (((mem.listheadInit head).listAdd head rs).listDel head).prev x = mem.prev x := by
    obtain ⟨hNext, hPrev⟩ := Links.remove_link (hRing.loop_other hHead).joined_head hrsHead hxHead
    exact ⟨hNext.trans (Links.loop_next.trans (if_neg hxHead)),
      hPrev.trans (Links.loop_prev.trans (if_neg hxHead))⟩
  obtain ⟨hNext, hPrev⟩ := hRing.links_mem hx
  refine ⟨hLinks, ?_, ?_⟩
  · rw [hLinks.1]
    exact fun heq => hHead (heq ▸ hNext)
  · rw [hLinks.2]
    exact fun heq => hHead (heq ▸ hPrev)

-- ---------------------------------------------------------------------------
-- Get and put
-- ---------------------------------------------------------------------------

/-- What the two loops of a get have visited, on each way it returns. -/
inductive GetVisited (m : Manager ops) (walk : List ListHeadPtr) (res : GetLinks ops) : Prop where
  | noGroup : m.tokenGrpCache.alloc = none → res.result.err = .memory →
      res.inited = [] → res.checked = [] → GetVisited m walk res
  | noRequest {before after : List ListHeadPtr} {failed : ListHeadPtr} :
      res.result.err = .memory → walk = before ++ failed :: after →
      res.inited = before ++ [failed] → res.checked = [] → GetVisited m walk res
  | made : res.result.grp = some m.nextGrp → res.inited = walk → res.checked = walk →
      GetVisited m walk res

/-- The resources in the order in which the loops get to them. -/
theorem walk_at (rsAt : ListHeadPtr → Resource Id) (rs : ListHeadPtr) (others : List ListHeadPtr) :
    (⟨rsAt rs, others.map rsAt⟩ : ResourceRing Id).walk = (others ++ [rs]).map rsAt := by
  simp [ResourceRing.walk]

/-- The group a get made. -/
theorem finishGet_grp (m : Manager ops) (gid : GrpPtr) (reqs : List (TokenReq Id)) :
    (m.finishGet gid reqs).grp = some gid := by
  unfold finishGet
  split <;> rfl

/-- A get of the ring, through its links: what it returns, and what it does to
the ring. -/
theorem getTokenGrpLinks_spec (hRing : Ring mem rs others) (hHead : head ∉ rs :: others)
    (hFuel : others.length + 1 < fuel) (m : Manager ops) (rsAt : ListHeadPtr → Resource Id)
    (pri : Nat) :
    (getTokenGrpLinks fuel m mem rsAt rs head pri).map (·.result) =
        m.getTokenGrp ⟨rsAt rs, others.map rsAt⟩ pri ∧
      ∀ res, getTokenGrpLinks fuel m mem rsAt rs head pri = some res →
        HandedBack mem res.mem head (rs :: others) ∧ GetVisited m (others ++ [rs]) res := by
  have hBack := handedBack_listDel hRing hHead
  have hWalk := ring_from_head hRing hHead
  have hLength : (others ++ [rs]).length < fuel := by simpa using hFuel
  have hOrder := walk_at rsAt rs others
  unfold getTokenGrpLinks getTokenGrp
  cases hAlloc : m.tokenGrpCache.alloc with
  | none =>
    refine ⟨rfl, fun res h => ?_⟩
    obtain rfl := Option.some.inj h
    exact ⟨hBack, .noGroup hAlloc rfl rfl rfl⟩
  | some tokenGrpCache =>
    obtain ⟨visited, hVisit, hCases⟩ := visit_initRipOne rsAt (others ++ [rs])
      (TokenReqgrp.fillNormalVal m.nextGrp pri) m.resourceCache
    simp only [listForEachSafe_eq hWalk hLength, hVisit, visit_checkNodeInOne, hOrder,
      TokenReqgrp.tokenReqgrpInit, Option.bind_eq_bind, Option.bind_some]
    generalize hInit : (TokenReqgrp.fillNormalVal m.nextGrp pri).initRipListByRsList
      m.resourceCache ((others ++ [rs]).map rsAt) = init at hCases ⊢
    obtain ⟨g, resourceCache, err⟩ := init
    simp only at hCases ⊢
    rcases hCases with ⟨rfl, rfl⟩ | ⟨rfl, before, failed, after, hSplit, rfl, -⟩
    · -- a request for every element
      simp only [if_true]
      generalize hIn : checkNodeInWhenGet _ ((others ++ [rs]).map rsAt) = online
      cases online with
      | none => exact ⟨rfl, fun res h => by cases h⟩
      | some m₁ =>
        refine ⟨rfl, fun res h => ?_⟩
        obtain rfl := Option.some.inj h
        exact ⟨hBack, .made (finishGet_grp m₁ _ _) rfl rfl⟩
    · -- the cache of the requests is empty at `failed`
      rw [if_neg (by decide)]
      refine ⟨rfl, fun res h => ?_⟩
      obtain rfl := Option.some.inj h
      exact ⟨hBack, .noRequest rfl hSplit rfl rfl⟩

/-- A put of the ring, through its links, visits all of it. -/
theorem putTokenGrpLinks_eq (hRing : Ring mem rs others) (hHead : head ∉ rs :: others)
    (hFuel : others.length + 1 < fuel) (m : Manager ops) (rsAt : ListHeadPtr → Resource Id)
    (gid : GrpPtr) :
    putTokenGrpLinks fuel m mem rsAt gid (some rs) head =
      some ⟨(m.putTokenGrp gid (some ⟨rsAt rs, others.map rsAt⟩)).1,
        (m.putTokenGrp gid (some ⟨rsAt rs, others.map rsAt⟩)).2,
        (mem.listheadInit head).listAdd head rs, others ++ [rs]⟩ := by
  have hWalk := ring_from_head hRing hHead
  have hLength : (others ++ [rs]).length < fuel := by simpa using hFuel
  have hOrder := walk_at rsAt rs others
  unfold putTokenGrpLinks putTokenGrp
  simp only [listForEachSafe_eq hWalk hLength, visit_checkNodeOutOne, Option.bind_eq_bind,
    Option.bind_some, Option.map_some, Option.getD_some, hOrder, List.nil_append]
  cases (m.checkNodeOutWhenPut ((others ++ [rs]).map rsAt)).1.groups.group? gid <;> rfl

/-- **The ring a get is passed is handed back**, on every way the get returns:
none of its links is other than before. Both loops of the get visit each of its
elements once, unless there is no memory for the group, or for the request of
one of them. -/
theorem get_hands_ring_back (hRing : Ring mem rs others) (hHead : head ∉ rs :: others)
    (hFuel : others.length + 1 < fuel) (m : Manager ops) (rsAt : ListHeadPtr → Resource Id)
    (pri : Nat) (gid : GrpPtr) :
    (getTokenGrpLinks fuel m mem rsAt rs head pri).map (·.result) =
        m.getTokenGrp ⟨rsAt rs, others.map rsAt⟩ pri ∧
      (∀ res, getTokenGrpLinks fuel m mem rsAt rs head pri = some res →
        HandedBack mem res.mem head (rs :: others) ∧ GetVisited m (others ++ [rs]) res) ∧
      (putTokenGrpLinks fuel m mem rsAt gid (some rs) head).map
        (fun res => (res.manager, res.callbacks, res.checked)) =
          some ((m.putTokenGrp gid (some ⟨rsAt rs, others.map rsAt⟩)).1,
            (m.putTokenGrp gid (some ⟨rsAt rs, others.map rsAt⟩)).2, others ++ [rs]) := by
  obtain ⟨hResult, hReturns⟩ := getTokenGrpLinks_spec hRing hHead hFuel m rsAt pri
  refine ⟨hResult, hReturns, ?_⟩
  rw [putTokenGrpLinks_eq hRing hHead hFuel m rsAt gid]
  rfl

section TwoElements

/-- The elements at 1 and 2, in a ring. -/
def ringOfTwo : ListMem := (ListMem.listheadInit ⟨id, id⟩ 1).listAdd 2 1

def ringOfTwoAt (pos : ListHeadPtr) : Resource Nat := ⟨pos, 3⟩

/-- A manager with room for some groups, and for two requests and nodes. -/
def roomFor (groups : ULong) : Manager IdOps.nat := .init IdOps.nat 1 groups 2 2 (by decide)

theorem get_hands_ring_of_two_back :
    ∃ res, getTokenGrpLinks 3 (roomFor 1) ringOfTwo ringOfTwoAt 1 9 0 = some res ∧
      HandedBack ringOfTwo res.mem 9 [1, 2] ∧ res.inited = [2, 1] ∧ res.checked = [2, 1] := by
  obtain ⟨res, hGet⟩ := Option.isSome_iff_exists.mp
    (show (getTokenGrpLinks 3 (roomFor 1) ringOfTwo ringOfTwoAt 1 9 0).isSome = true by decide)
  have hBack := (get_hands_ring_back (show Ring ringOfTwo 1 [2] from ⟨by decide, by decide⟩)
    (show 9 ∉ [1, 2] by decide) (show 2 < 3 by decide) (roomFor 1) ringOfTwoAt 0 0).2.1 res hGet
  have hVisited : (getTokenGrpLinks 3 (roomFor 1) ringOfTwo ringOfTwoAt 1 9 0).map
      (fun res => (res.inited, res.checked)) = some ([2, 1], [2, 1]) := by decide
  rw [hGet] at hVisited
  obtain ⟨hInited, hChecked⟩ := Prod.mk.inj (Option.some.inj hVisited)
  exact ⟨res, hGet, hBack.1, hInited, hChecked⟩

/-- With no memory for the group, the ring is not walked. -/
theorem no_group_no_walk :
    ¬ ∀ (m : Manager IdOps.nat) (mem : ListMem) (rsAt : ListHeadPtr → Resource Nat)
      (rs head : ListHeadPtr) (others : List ListHeadPtr) (fuel pri : Nat)
      (res : GetLinks IdOps.nat), Ring mem rs others → head ∉ rs :: others →
      others.length + 1 < fuel → getTokenGrpLinks fuel m mem rsAt rs head pri = some res →
      ∀ x ∈ rs :: others, x ∈ res.inited ∨ x ∈ res.checked := by
  intro hAlways
  obtain ⟨res, hGet⟩ := Option.isSome_iff_exists.mp
    (show (getTokenGrpLinks 3 (roomFor 0) ringOfTwo ringOfTwoAt 1 9 0).isSome = true by decide)
  have hVisited : (getTokenGrpLinks 3 (roomFor 0) ringOfTwo ringOfTwoAt 1 9 0).map
      (fun res => (res.inited, res.checked)) = some ([], []) := by decide
  rw [hGet] at hVisited
  obtain ⟨hInited, hChecked⟩ := Prod.mk.inj (Option.some.inj hVisited)
  have hWalked := hAlways _ _ _ 1 9 [2] 3 0 res ⟨by decide, by decide⟩ (by decide) (by decide) hGet 1
    List.mem_cons_self
  rw [hInited, hChecked] at hWalked
  simp at hWalked

end TwoElements

/-- A put leaves its head in the ring, between the element named and the next. -/
theorem put_keeps_ring (hRing : Ring mem rs others) (hHead : head ∉ rs :: others)
    (hFuel : others.length + 1 < fuel) (m : Manager ops) (rsAt : ListHeadPtr → Resource Id)
    (gid : GrpPtr) {res : PutLinks ops}
    (h : putTokenGrpLinks fuel m mem rsAt gid (some rs) head = some res) :
    Ring res.mem rs (head :: others) ∧ ¬ HandedBack mem res.mem head (rs :: others) := by
  rw [putTokenGrpLinks_eq hRing hHead hFuel m rsAt gid] at h
  obtain rfl := Option.some.inj h
  have hIn := ring_with_head hRing hHead
  exact ⟨hIn, fun hBack => (hBack rs List.mem_cons_self).2.1 hIn.next_head⟩

end Manager

end DatastorQos
