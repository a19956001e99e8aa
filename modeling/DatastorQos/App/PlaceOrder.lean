import DatastorQos.App.WaitOrder

/-!
# datastor_qos — a get joins the order of waiting

What a get does to the nodes its group names: each of them either grants its
one request or queues it (`PlacedOn`), and no other node changes (`Places`). So
the new group stands last wherever it waits. The one thing that could upset the
order is a group that ends up waiting and took tokens past a queue; a get
`WaitsItsTurn` if it does not.
-/

namespace DatastorQos

open Keyed GrpHeap

variable {Id : Type} {ops : IdOps Id} {fenced : Prop}
  {look look' : Id → Option (DispatchNode Id)} {h h' : GrpHeap Id} {id : Id}
  {n n' : DispatchNode Id} {r r' : TokenReq Id} {m m₁ m' : Manager ops}

-- ---------------------------------------------------------------------------
-- One request
-- ---------------------------------------------------------------------------

/-- The node granted the request, or queued it for want of room. -/
def PlacedOn (n : DispatchNode Id) (r : TokenReq Id) (stat : AppTokenStat)
    (n' : DispatchNode Id) : Prop :=
  n.baseNode.Fits r.tokenNeed.cost ∧ stat = .got ∧
      n' = { n with baseNode := n.baseNode.chargeSection r.tokenNeed.cost } ∨
    ¬ n.baseNode.Fits r.tokenNeed.cost ∧ stat = .init ∧
      n' = { n with lheadNodereq := n.lheadNodereq.pushBack r.needList }

/-- A request is granted or queued, and its node does nothing else. -/
theorem allocResource_placed (hs : h.Sound) (hr : r ∈ h.reqs) (hInit : r.stat = .init)
    (n : DispatchNode Id) :
    ∃ stat, PlacedOn n r stat (n.allocResource h r.needList).1 ∧
      Rewrites h r { r with nodeid := n.fenceId, stat := stat }
        (n.allocResource h r.needList).2.1 := by
  have hw := hs.rewrites_setNodeid hr n.fenceId
  by_cases hFits : n.baseNode.Fits r.tokenNeed.cost
  · rw [DispatchNode.allocResource_of_fits (show n.baseNode.Fits r.needList.rs.cost from hFits)]
    have hr₁ := hw.mem_iff.mpr (Or.inr rfl)
    have hGot := (hw.sound'.toGot hr₁ hInit).rewrites hw.sound' hr₁
    exact ⟨.got, Or.inl ⟨hFits, rfl, rfl⟩, hw.trans hGot⟩
  · rw [DispatchNode.allocResource_of_not_fits
      (show ¬ n.baseNode.Fits r.needList.rs.cost from hFits)]
    refine ⟨.init, Or.inr ⟨hFits, rfl, rfl⟩, ?_⟩
    rw [← hInit]
    exact hw

/-- A node's counters, after it placed a request. -/
theorem PlacedOn.quota {stat : AppTokenStat} (hp : PlacedOn n r stat n')
    (hSteady : n.baseNode.tokenQuotaNew = n.baseNode.tokenQuota) :
    n'.baseNode.tokenQuota = n.baseNode.tokenQuota ∧
      n'.baseNode.tokenQuotaNew = n'.baseNode.tokenQuota := by
  obtain ⟨-, -, rfl⟩ | ⟨-, -, rfl⟩ := hp
  · have hQuota : (n.baseNode.chargeSection r.tokenNeed.cost).tokenQuota = n.baseNode.tokenQuota :=
      DispatchBaseNode.chargeSection_tokenQuota hSteady
    refine ⟨hQuota, ?_⟩
    simp only [DispatchBaseNode.chargeSection_tokenQuotaNew, hQuota]
    exact hSteady
  · exact ⟨rfl, hSteady⟩

-- ---------------------------------------------------------------------------
-- The requests of a group
-- ---------------------------------------------------------------------------

/-- The requests `rips` were placed, each on its own node. -/
structure Places (ops : IdOps Id) (rips : List (TokenReq Id))
    (look : Id → Option (DispatchNode Id)) (h : GrpHeap Id)
    (look' : Id → Option (DispatchNode Id)) (h' : GrpHeap Id) : Prop where
  sound  : h'.Sound
  nodes  : ∀ id n', look' id = some n' → look id = some n' ∨
    ∃ r ∈ rips, ∃ n, ops.Same id r.tokenNeed.id ∧ look id = some n ∧
      ∃ r' ∈ h'.reqs, r'.ptr = r.ptr ∧ r'.tokenNeed = r.tokenNeed ∧ PlacedOn n r r'.stat n'
  origin : ∀ x ∈ h'.reqs, (x ∈ h.reqs ∧ ∀ r ∈ rips, x.ptr ≠ r.ptr) ∨
    ∃ r ∈ rips, x.ptr = r.ptr ∧ x.tokenNeed = r.tokenNeed ∧ x.stat ≠ .failed
  kept   : ∀ x ∈ h.reqs, (∀ r ∈ rips, x.ptr ≠ r.ptr) → x ∈ h'.reqs

/-- Placing never fails a request. -/
theorem PlacedOn.stat_ne {stat : AppTokenStat} (hp : PlacedOn n r stat n') : stat ≠ .failed := by
  obtain ⟨-, rfl, -⟩ | ⟨-, rfl, -⟩ := hp <;> simp

/-- All requests of a group are placed, each on a node of its own: by induction on
them, the nodes being different. -/
theorem tryToGetTokens_places (err : QosError) (rips : List (TokenReq Id)) (hs : m.groups.Sound)
    (hCongr : ∀ a b, ops.Same a b → m.node? a = m.node? b)
    (hMem : ∀ r ∈ rips, r ∈ m.groups.reqs ∧ r.stat = .init)
    (hNodup : (rips.map TokenReq.ptr).Nodup)
    (hDistinct : rips.Pairwise fun a b => ¬ ops.Same a.tokenNeed.id b.tokenNeed.id)
    (hOnline : ∀ r ∈ rips, ∃ n, m.node? r.tokenNeed.id = some n) :
    Places ops rips m.node? m.groups (m.tryToGetTokens err rips).1.node?
      (m.tryToGetTokens err rips).1.groups := by
  induction rips generalizing m err with
  | nil => exact ⟨hs, fun _ _ hn => Or.inl hn, fun x hx => Or.inl ⟨hx, by simp⟩, fun x hx _ => hx⟩
  | cons r rest ih =>
    obtain ⟨hr, hInit⟩ := hMem r List.mem_cons_self
    obtain ⟨n, hn⟩ := hOnline r List.mem_cons_self
    rw [List.map_cons, List.nodup_cons] at hNodup
    rw [List.pairwise_cons] at hDistinct
    obtain ⟨stat, hPlaced, hw⟩ := allocResource_placed hs hr hInit n
    unfold Manager.tryToGetTokens
    simp only [Manager.tryToAllocFromManager, hn]
    generalize n.allocResource m.groups r.needList = res at hPlaced hw ⊢
    obtain ⟨n', h', err'⟩ := res
    simp only at hPlaced hw ⊢
    have hLook : (m.setNode r.tokenNeed.id n' h').node? = setAt ops m.node? r.tokenNeed.id n' :=
      node?_setNode hn
    have hNe : ∀ x ∈ rest, x.ptr ≠ r.ptr := fun x hx hp =>
      hNodup.1 (hp ▸ List.mem_map_of_mem hx)
    -- the node of another request is as it was
    have hOther : ∀ x ∈ rest, ∀ id, ops.Same id x.tokenNeed.id →
        (m.setNode r.tokenNeed.id n' h').node? id = m.node? id := by
      intro x hx id hSame
      rw [hLook]
      exact if_neg fun hSame' => hDistinct.1 x hx (hSame'.trans hSame)
    have ih := ih err' (m := m.setNode r.tokenNeed.id n' h') hw.sound'
      (fun a b hSame => by
        rw [hLook]
        exact setAt_congr hCongr hSame)
      (fun x hx => by
        obtain ⟨hxm, hxInit⟩ := hMem x (List.mem_cons_of_mem _ hx)
        exact ⟨hw.mem_iff.mpr (Or.inl ⟨hxm, hNe x hx⟩), hxInit⟩)
      hNodup.2 hDistinct.2
      (fun x hx => by
        obtain ⟨nx, hnx⟩ := hOnline x (List.mem_cons_of_mem _ hx)
        exact ⟨nx, (hOther x hx _ (ops.same_refl _)).trans hnx⟩)
    refine ⟨ih.sound, fun id n'' hn'' => ?_, fun x hx => ?_, fun x hx hxne => ?_⟩
    · rcases ih.nodes id n'' hn'' with hn'' | ⟨x, hx, n₁, hSame, hn₁, hRest⟩
      · rw [hLook] at hn''
        rcases setAt_cases hn'' with ⟨hSame, rfl⟩ | ⟨-, hn''⟩
        · refine Or.inr ⟨r, List.mem_cons_self, n, hSame.symm, (hCongr _ _ hSame).symm.trans hn,
            { r with nodeid := n.fenceId, stat := stat }, ?_, rfl, rfl, hPlaced⟩
          exact ih.kept _ (hw.mem_iff.mpr (Or.inr rfl)) fun y hy => (hNe y hy).symm
        · exact Or.inl hn''
      · exact Or.inr ⟨x, List.mem_cons_of_mem _ hx, n₁, hSame,
          (hOther x hx id hSame).symm.trans hn₁, hRest⟩
    · rcases ih.origin x hx with ⟨hx, hxne⟩ | ⟨y, hy, hRest⟩
      · rcases hw.mem_iff.mp hx with ⟨hx, hp⟩ | rfl
        · refine Or.inl ⟨hx, fun y hy => ?_⟩
          rcases List.mem_cons.mp hy with rfl | hy
          · exact hp
          · exact hxne y hy
        · exact Or.inr ⟨r, List.mem_cons_self, rfl, rfl, hPlaced.stat_ne⟩
      · exact Or.inr ⟨y, List.mem_cons_of_mem _ hy, hRest⟩
    · exact ih.kept x (hw.mem_iff.mpr (Or.inl ⟨hx, hxne r List.mem_cons_self⟩))
        fun y hy => hxne y (List.mem_cons_of_mem _ hy)

-- ---------------------------------------------------------------------------
-- The whole call
-- ---------------------------------------------------------------------------

/-- What a get that placed group `g` on the nodes of `m₁` knows of the state
before it, `m`, and leaves in `m₂`. -/
structure GetOrder (m : Manager ops) (g : TokenReqgrp Id) (m₁ m₂ : Manager ops) : Prop where
  fair     : Fair m []
  books    : m.Books False True [] []
  older    : ∀ x ∈ m.groups.reqs, x.tokenGrp < m.nextGrp
  mine     : ∀ r ∈ g.lheadReqgrp, r.tokenGrp = m.nextGrp
  distinct : g.lheadReqgrp.Pairwise fun a b => ¬ ops.Same a.tokenNeed.id b.tokenNeed.id
  joins    : NodesJoin m m₁
  places   : Places ops g.lheadReqgrp m₁.node? (g :: m.groups) m₂.node? m₂.groups
  within   : ∀ r ∈ g.lheadReqgrp, ∀ n, m₂.node? r.tokenNeed.id = some n →
    r.tokenNeed.cost ≤ n.baseNode.tokenQuota
  /-- a group that has to wait took nothing past a queue -/
  turn     : m₂.groups.Unsettled m.nextGrp → ∀ x ∈ m₂.groups.reqs, x.tokenGrp = m.nextGrp →
    x.stat = .got → ∀ n, m.node? x.tokenNeed.id = some n → n.lheadNodereq.tokenList = []

namespace GetOrder

variable {g : TokenReqgrp Id} {m₂ : Manager ops} {x y : TokenReq Id}

/-- A request found afterwards is an old one, or one of the new group. -/
theorem origin (hg : GetOrder m g m₁ m₂) (hx : x ∈ m₂.groups.reqs) :
    x ∈ m.groups.reqs ∧ x.tokenGrp < m.nextGrp ∨
      x.tokenGrp = m.nextGrp ∧ x.stat ≠ .failed ∧
        ∃ r ∈ g.lheadReqgrp, x.ptr = r.ptr ∧ x.tokenNeed = r.tokenNeed := by
  rcases hg.places.origin x hx with ⟨hx, hne⟩ | ⟨r, hr, hp, hNeed, hStat⟩
  · rw [reqs_cons, List.mem_append] at hx
    rcases hx with hx | hx
    · exact absurd rfl (hne x hx)
    · exact Or.inl ⟨hx, hg.older x hx⟩
  · exact Or.inr ⟨(congrArg ReqPtr.grp hp).trans (hg.mine r hr), hStat, r, hr, hp, hNeed⟩

/-- What was there is still there, -/
theorem kept (hg : GetOrder m g m₁ m₂) (hx : x ∈ m.groups.reqs) : x ∈ m₂.groups.reqs := by
  refine hg.places.kept x (by rw [reqs_cons]; exact List.mem_append_right _ hx) fun r hr hp => ?_
  have := hg.older x hx
  rw [show x.tokenGrp = r.tokenGrp from congrArg ReqPtr.grp hp, hg.mine r hr] at this
  exact Nat.lt_irrefl _ this

/-- and an older group that waits now waited before. -/
theorem unsettled (hg : GetOrder m g m₁ m₂) {gid : GrpPtr} (hgid : gid < m.nextGrp)
    (hu : m₂.groups.Unsettled gid) : m.groups.Unsettled gid := by
  obtain ⟨x, hx, rfl, hInit⟩ := hu
  rcases hg.origin hx with ⟨hx, -⟩ | ⟨hNew, -⟩
  · exact ⟨x, hx, rfl, hInit⟩
  · exact absurd hNew (Nat.ne_of_lt hgid)

/-- The only grants are of the new group. -/
theorem grants (hg : GetOrder m g m₁ m₂) : Grants m.groups m₂.groups where
  got     := fun _ hx _ => hg.kept hx
  settled := fun x hx _ hu => hg.unsettled (hg.older x hx) hu

/-- What the node of `id` was before the get: online, or new. -/
theorem node (hg : GetOrder m g m₁ m₂) (hn : m₁.node? id = some n) :
    m.node? id = some n ∨ m.node? id = none ∧ n.lheadNodereq.tokenList = [] ∧
      n.baseNode.tokenQuotaNew = n.baseNode.tokenQuota := by
  rcases hg.joins.new id n hn with hn | ⟨hNone, _, rfl⟩
  · exact Or.inl hn
  · exact Or.inr ⟨hNone, rfl, rfl⟩

/-- Before the get the queues hold older groups, in their order; -/
theorem sorted_before (hg : GetOrder m g m₁ m₂) (hn : m₁.node? id = some n) :
    (n.lheadNodereq.tokenList.Pairwise fun a b => a.owner.grp < b.owner.grp) ∧
      ∀ rs ∈ n.lheadNodereq.tokenList, rs.owner.grp < m.nextGrp := by
  rcases hg.node hn with hn | ⟨-, hNil, -⟩
  · refine ⟨hg.fair.order.sorted id n hn, fun rs hrs => ?_⟩
    obtain ⟨x, hx, rfl⟩ := ((hg.books.node id n hn).queued rs).mp hrs
    exact hg.older x hx.mem
  · rw [hNil]
    exact ⟨List.Pairwise.nil, by simp⟩

/-- no node steps its quota down, -/
theorem steady_before (hg : GetOrder m g m₁ m₂) (hn : m₁.node? id = some n) :
    n.baseNode.tokenQuotaNew = n.baseNode.tokenQuota := by
  rcases hg.node hn with hn | ⟨-, -, hSteady⟩
  · exact hg.fair.order.steady id n hn
  · exact hSteady

/-- and a queue stands still for its front, or for a settled group. -/
theorem front_before (hg : GetOrder m g m₁ m₂) (hn : m₁.node? id = some n) :
    FrontHeld ops m₂.groups [] id n := by
  rcases hg.node hn with hn | ⟨-, hNil, -⟩
  · exact (hg.fair.front id n hn).mono hg.grants
  · exact Or.inl (by simp [NodereqList.front, hNil])

/-- The new group stands last wherever it waits. -/
theorem sorted (hg : GetOrder m g m₁ m₂) (hn : m₂.node? id = some n') :
    n'.lheadNodereq.tokenList.Pairwise fun a b => a.owner.grp < b.owner.grp := by
  rcases hg.places.nodes id n' hn with hn | ⟨r, hr, n, -, hn, r', -, -, -, hPlaced⟩
  · exact (hg.sorted_before hn).1
  · obtain ⟨hSorted, hOlder⟩ := hg.sorted_before hn
    obtain ⟨-, -, rfl⟩ | ⟨-, -, rfl⟩ := hPlaced
    · exact hSorted
    · rw [NodereqList.pushBack_tokenList, List.pairwise_append]
      refine ⟨hSorted, List.pairwise_singleton _ _, fun a ha b hb => ?_⟩
      rw [List.mem_singleton.mp hb, show r.needList.owner.grp = m.nextGrp from hg.mine r hr]
      exact hOlder a ha

/-- Each group asks a node once. -/
theorem once (hg : GetOrder m g m₁ m₂) (hx : x ∈ m₂.groups.reqs) (hy : y ∈ m₂.groups.reqs)
    (hgrp : x.tokenGrp = y.tokenGrp) (hSame : ops.Same x.tokenNeed.id y.tokenNeed.id) :
    x.ptr = y.ptr := by
  rcases hg.origin hx with ⟨hx, hxOld⟩ | ⟨hxNew, -, r, hr, hxp, hxNeed⟩ <;>
    rcases hg.origin hy with ⟨hy, hyOld⟩ | ⟨hyNew, -, r', hr', hyp, hyNeed⟩
  · exact hg.fair.order.once x hx y hy hgrp hSame
  · exact absurd (hgrp.trans hyNew) (Nat.ne_of_lt hxOld)
  · exact absurd (hgrp.symm.trans hxNew) (Nat.ne_of_lt hyOld)
  · have hOnce := List.Pairwise.forall_of_forall_of_flip
      (R := fun a b : TokenReq Id => ops.Same a.tokenNeed.id b.tokenNeed.id → a.ptr = b.ptr)
      (fun _ _ _ => rfl) (hg.distinct.imp fun hab h' => absurd h' hab)
      (hg.distinct.imp fun hab h' => absurd h'.symm hab)
    rw [hxNeed, hyNeed] at hSame
    rw [hxp, hyp]
    exact hOnce hr hr' hSame

/-- A group that waits elsewhere while it holds tokens of a node is older than one
that waits for them. -/
theorem ahead (hg : GetOrder m g m₁ m₂) (hy : y ∈ m₂.groups.reqs) (hx : x ∈ m₂.groups.reqs)
    (hGot : y.stat = .got) (hInit : x.stat = .init)
    (hSame : ops.Same y.tokenNeed.id x.tokenNeed.id) (hu : m₂.groups.Unsettled y.tokenGrp) :
    y.tokenGrp < x.tokenGrp := by
  rcases hg.origin hy with ⟨hyOld, hyLt⟩ | ⟨hyNew, -⟩ <;>
    rcases hg.origin hx with ⟨hxOld, hxLt⟩ | ⟨hxNew, -⟩
  · exact hg.fair.order.ahead y hyOld x hxOld hGot hInit hSame (hg.unsettled hyLt hu)
  · exact hxNew ▸ hyLt
  · -- the new group took nothing where an old one waits
    obtain ⟨n, hn⟩ := hg.books.waiting x hxOld hInit (by simp)
    have hNil := hg.turn (hyNew ▸ hu) y hy hyNew hGot n
      ((HashTable.find_congr hSame).trans hn)
    have hQueued := ((hg.books.node _ n hn).queued x.needList).mpr
      ⟨x, ⟨hxOld, hInit, ops.same_refl _, by simp⟩, rfl⟩
    rw [hNil] at hQueued
    cases hQueued
  · -- it names the node once
    have hp := hg.once hy hx (hyNew.trans hxNew.symm) hSame
    have hSound := hg.places.sound
    rw [hSound.eq_of_ptr_eq hy hx hp, hInit] at hGot
    cases hGot

/-- No node begins to step down. -/
theorem steady (hg : GetOrder m g m₁ m₂) (hn : m₂.node? id = some n') :
    n'.baseNode.tokenQuotaNew = n'.baseNode.tokenQuota := by
  rcases hg.places.nodes id n' hn with hn | ⟨r, -, n, -, hn, r', -, -, -, hPlaced⟩
  · exact hg.steady_before hn
  · exact (hPlaced.quota (hg.steady_before hn)).2

/-- A request asks for no more than its node's quota, still. -/
theorem within_old (hg : GetOrder m g m₁ m₂) (hx : x ∈ m.groups.reqs)
    (hn : m₂.node? x.tokenNeed.id = some n') :
    x.tokenNeed.cost ≤ n'.baseNode.tokenQuota := by
  -- the node was online before the get
  have hBefore : ∀ n, m₁.node? x.tokenNeed.id = some n →
      x.tokenNeed.cost ≤ n.baseNode.tokenQuota := by
    intro n hn
    obtain ⟨n₀, hn₀⟩ := node?_of_mem hg.fair.order hg.books hx
    rw [hg.joins.kept _ n₀ hn₀] at hn
    exact Option.some.inj hn ▸ hg.fair.order.within x hx n₀ hn₀
  rcases hg.places.nodes _ n' hn with hn | ⟨r, -, n, -, hn, r', -, -, -, hPlaced⟩
  · exact hBefore n' hn
  · rw [(hPlaced.quota (hg.steady_before hn)).1]
    exact hBefore n hn

/-- And a queue stands still for its front or for a settled group, also with the
new one. -/
theorem front (hg : GetOrder m g m₁ m₂) (hn' : m₂.node? id = some n') :
    FrontHeld ops m₂.groups [] id n' := by
  rcases hg.places.nodes id n' hn' with hn | ⟨r, hr, n, hSame, hn, r', hr', hp, hNeed, hPlaced⟩
  · exact hg.front_before hn
  · have hgrp : r'.tokenGrp = m.nextGrp := (congrArg ReqPtr.grp hp).trans (hg.mine r hr)
    have hHere : ops.Same id r'.tokenNeed.id := by rwa [hNeed]
    obtain ⟨-, hGot, rfl⟩ | ⟨hNot, -, rfl⟩ := hPlaced
    · by_cases hu : m₂.groups.Unsettled r'.tokenGrp
      · -- taken while the queue was empty
        have hNil : n.lheadNodereq.tokenList = [] := by
          rcases hg.node hn with hn | ⟨-, hNil, -⟩
          · exact hg.turn (hgrp ▸ hu) r' hr' hgrp hGot n ((HashTable.find_congr hHere).symm.trans hn)
          · exact hNil
        exact Or.inl (by simp [NodereqList.front, hNil])
      · exact Or.inr ⟨r', hr', hGot, hHere, by simp, hu⟩
    · rcases hg.front_before hn with hFront | hHeld
      · refine Or.inl fun rs hrs => ?_
        rw [NodereqList.pushBack_front] at hrs
        cases hHead : n.lheadNodereq.front with
        | none =>
          rw [hHead] at hrs
          obtain rfl := Option.some.inj hrs
          exact hNot
        | some rs₀ =>
          rw [hHead] at hrs
          obtain rfl := Option.some.inj hrs
          exact hFront rs₀ hHead
      · exact Or.inr hHeld

/-- A get that waits its turn keeps the order of waiting. -/
theorem fair_after (hg : GetOrder m g m₁ m₂) : Fair m₂ [] where
  order := by
    refine ⟨fun id n hn => hg.sorted hn, fun y hy x hx => hg.ahead hy hx, fun x hx => ?_,
      fun x hx y hy => hg.once hx hy, fun id n hn => hg.steady hn, fun x hx n hn => ?_⟩
    · rcases hg.origin hx with ⟨hx, -⟩ | ⟨-, hStat, -⟩
      · exact hg.fair.order.nofail x hx
      · exact hStat
    · rcases hg.origin hx with ⟨hx, -⟩ | ⟨-, -, r, hr, -, hNeed⟩
      · exact hg.within_old hx hn
      · rw [hNeed] at hn ⊢
        exact hg.within r hr n hn
  front := fun id n hn => hg.front hn

end GetOrder

/-- A get on nodes that are online keeps the order of waiting, if its group
waits its turn. -/
theorem getTokenGrp_fair {ring : ResourceRing Id} {pri : Nat} {res : Manager.GetResult ops}
    (hf : Fair m []) (ha : m.Books False True [] []) (hFresh : ∀ g ∈ m.groups, g.gid < m.nextGrp)
    (hGet : m.getTokenGrp ring pri = some res)
    (hDistinct : ring.walk.Pairwise fun a b => ¬ ops.Same a.id b.id)
    (hOnline : res.grp ≠ none → ∀ rs ∈ ring.walk,
      ∃ n, res.manager.node? rs.id = some n ∧ rs.cost ≤ n.baseNode.tokenQuota)
    (hTurn : res.grp = some m.nextGrp → res.err = .pending → ∀ x ∈ res.manager.groups.reqs,
      x.tokenGrp = m.nextGrp → x.stat = .got →
      ∀ n, m.node? x.tokenNeed.id = some n → n.lheadNodereq.tokenList = []) :
    Fair res.manager [] := by
  rcases Manager.getTokenGrp_cases hGet with hNothing | ⟨g, m₁, m₂, err, hMade⟩
  · have hNode : res.manager.node? = m.node? := by
      unfold Manager.node?
      rw [hNothing.nodeTable]
    exact hf.join ha ⟨fun id n hn => hNode ▸ hn, fun id n hn => Or.inl (hNode ▸ hn)⟩
      hNothing.groups
  · have hOlder : ∀ x ∈ m.groups.reqs, x.tokenGrp < m.nextGrp := by
      intro x hx
      obtain ⟨g, hg, hxg⟩ := mem_reqs.mp hx
      rw [(ha.sound.group g hg).owner x hxg]
      exact hFresh g hg
    have hMine : ∀ r ∈ g.lheadReqgrp, r.tokenGrp = m.nextGrp := fun r hr =>
      (hMade.fresh.owner r hr).trans hMade.gid
    have he := hMade.effect ha hFresh False.elim
    have hPair := hMade.need_pairwise hDistinct
    obtain ⟨_, hIn⟩ := hMade.online
    have hInJoins := checkNodeInWhenGet_joins hIn
    have hAnswered : res.grp = some m.nextGrp := by
      rcases hMade.result with ⟨-, rfl⟩ | ⟨-, -, rfl⟩ <;> rfl
    have hCaches := tryToGetTokens_caches g.lheadReqgrp m₁ .ok
    have hFences := tryToGetTokens_fences g.lheadReqgrp m₁ .ok
    have hPlaces := tryToGetTokens_places .ok g.lheadReqgrp he.online.sound he.online.congr
      (fun r hr => ⟨mem_reqs.mpr ⟨g, mem_of_lookup he.new, hr⟩, hMade.fresh.stat_init r hr⟩)
      (hMade.fresh.sound hMade.nonempty).nodup_ptr hPair
    rw [hMade.placed] at hCaches hFences hPlaces
    simp only at hCaches hFences hPlaces
    have hPlaces := hPlaces fun r hr => by
      -- online in the end, so online when asked
      obtain ⟨n, hn, -⟩ := hOnline (by simp [hAnswered]) r.tokenNeed (hMade.need_mem hr)
      have hn₂ : ∃ n, m₂.node? r.tokenNeed.id = some n := by
        rcases hMade.result with ⟨-, rfl⟩ | ⟨-, -, rfl⟩
        · exact ⟨n, hn⟩
        · exact (putTokenGrp_fences _ _ _).node_of_version (putTokenGrp_version _ _ _) hn
      obtain ⟨n₂, hn₂⟩ := hn₂
      exact hFences.node_of_version hCaches.version_eq hn₂
    rw [he.groups_eq] at hPlaces
    obtain ⟨g', hg', hErr⟩ := he.placed.group
    have hSound := hPlaces.sound.group g' (mem_of_lookup hg')
    have hNoFail : ∀ x ∈ m₂.groups.reqs, x.stat ≠ .failed := by
      intro x hx
      rcases hPlaces.origin x hx with ⟨hx, hne⟩ | ⟨r, hr, -, -, hStat⟩
      · rw [reqs_cons, List.mem_append] at hx
        rcases hx with hx | hx
        · exact absurd rfl (hne x hx)
        · exact hf.order.nofail x hx
      · exact hStat
    have hRes := hMade.res_eq hErr hSound fun r hr =>
      hNoFail r (mem_reqs.mpr ⟨g', mem_of_lookup hg', hr⟩)
    subst hRes
    suffices hOrder : GetOrder m g m₁ m₂ from hOrder.fair_after
    refine ⟨hf, ha, hOlder, hMine, hPair, ⟨hInJoins.kept, hInJoins.new⟩, hPlaces, ?_, ?_⟩
    · intro r hr n hn
      obtain ⟨n', hn', hLe⟩ := hOnline (by simp) r.tokenNeed (hMade.need_mem hr)
      rw [hn] at hn'
      exact Option.some.inj hn' ▸ hLe
    · intro hu
      refine hTurn rfl (hErr.trans ?_)
      obtain ⟨g'', hg'', hNe⟩ := hPlaces.sound.unsettled_iff.mp hu
      rw [hg'] at hg''
      obtain rfl := Option.some.inj hg''
      exact if_neg hNe

end DatastorQos
