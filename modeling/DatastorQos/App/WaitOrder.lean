import DatastorQos.App.GetBooks

/-!
# datastor_qos — who waits for whom

Groups are made in the order of their addresses, and a queue is served in the
order in which requests joined it. While no node goes offline and no quota is
lowered, this gives an order to waiting (`WaitOrder`): on each node a group that
holds tokens there and waits elsewhere is older than every group that waits
there. Besides, a queue stands still only because its front does not fit, or
because a settled group holds tokens of the node (`FrontHeld`).

This file keeps both along the operations; `Deadlock` draws the conclusion.
-/

namespace DatastorQos

open Keyed GrpHeap

variable {Id : Type} {ops : IdOps Id} {fenced calm : Prop}
  {look : Id → Option (DispatchNode Id)} {version : Nat} {h h₁ h' : GrpHeap Id}
  {unplaced freed : List ReqPtr} {id : Id} {n n' : DispatchNode Id} {r r' : TokenReq Id}

-- ---------------------------------------------------------------------------
-- Definitions
-- ---------------------------------------------------------------------------

/-- Some request of the group is still in `init`. -/
def GrpHeap.Unsettled (h : GrpHeap Id) (gid : GrpPtr) : Prop :=
  ∃ x ∈ h.reqs, x.tokenGrp = gid ∧ x.stat = .init

theorem GrpHeap.Sound.unsettled_iff (hs : h.Sound) {gid : GrpPtr} :
    h.Unsettled gid ↔ ∃ g, group? h gid = some g ∧ g.initNr ≠ 0 := by
  constructor
  · rintro ⟨x, hx, rfl, hInit⟩
    obtain ⟨g, hg, hxg⟩ := hs.group?_of_mem hx
    exact ⟨g, hg, (TokenReqgrp.initNr_pos hxg hInit).ne'⟩
  · rintro ⟨g, hg, hne⟩
    obtain ⟨x, hx, hInit⟩ := List.countP_pos_iff.mp (Nat.pos_of_ne_zero hne)
    refine ⟨x, mem_reqs.mpr ⟨g, mem_of_lookup hg, hx⟩, ?_, of_decide_eq_true hInit⟩
    rw [(hs.group g (mem_of_lookup hg)).owner x hx]
    exact key_of_lookup hg

/-- The order of waiting. -/
structure WaitOrder (ops : IdOps Id) (look : Id → Option (DispatchNode Id)) (h : GrpHeap Id) :
    Prop where
  /-- queues hold the older group in front -/
  sorted : ∀ id n, look id = some n →
    n.lheadNodereq.tokenList.Pairwise fun a b => a.owner.grp < b.owner.grp
  /-- who holds tokens and waits elsewhere is older than those who wait here -/
  ahead  : ∀ r' ∈ h.reqs, ∀ r ∈ h.reqs, r'.stat = .got → r.stat = .init →
    ops.Same r'.tokenNeed.id r.tokenNeed.id → h.Unsettled r'.tokenGrp → r'.tokenGrp < r.tokenGrp
  nofail : ∀ r ∈ h.reqs, r.stat ≠ .failed
  /-- a group names an id once -/
  once   : ∀ r ∈ h.reqs, ∀ r' ∈ h.reqs, r.tokenGrp = r'.tokenGrp →
    ops.Same r.tokenNeed.id r'.tokenNeed.id → r.ptr = r'.ptr
  /-- no lower quota is on its way -/
  steady : ∀ id n, look id = some n → n.baseNode.tokenQuotaNew = n.baseNode.tokenQuota
  within : ∀ r ∈ h.reqs, ∀ n, look r.tokenNeed.id = some n →
    r.tokenNeed.cost ≤ n.baseNode.tokenQuota

/-- Why the queue of the node stands still. -/
def FrontHeld (ops : IdOps Id) (h : GrpHeap Id) (freed : List ReqPtr) (id : Id)
    (n : DispatchNode Id) : Prop :=
  (∀ rs ∈ n.lheadNodereq.front, ¬ n.baseNode.Fits rs.rs.cost) ∨
    ∃ r ∈ h.reqs, r.stat = .got ∧ ops.Same id r.tokenNeed.id ∧ r.ptr ∉ freed ∧
      ¬ h.Unsettled r.tokenGrp

/-- From memory `h` to memory `h'` no request was taken back and no settled group
became unsettled. -/
structure Grants (h h' : GrpHeap Id) : Prop where
  got     : ∀ r ∈ h.reqs, r.stat = .got → r ∈ h'.reqs
  settled : ∀ r ∈ h.reqs, r.stat = .got → h'.Unsettled r.tokenGrp → h.Unsettled r.tokenGrp

theorem Grants.refl (h : GrpHeap Id) : Grants h h := ⟨fun _ hr _ => hr, fun _ _ _ hu => hu⟩

theorem Grants.trans (a : Grants h h₁) (b : Grants h₁ h') : Grants h h' where
  got     := fun r hr hGot => b.got r (a.got r hr hGot) hGot
  settled := fun r hr hGot hu => a.settled r hr hGot (b.settled r (a.got r hr hGot) hGot hu)

theorem Rewrites.grants (hw : Rewrites h r r' h') (hInit : r.stat = .init)
    (hStat : r'.stat ≠ .init) : Grants h h' where
  got     := by
    intro x hx hGot
    refine hw.mem_iff.mpr (Or.inl ⟨hx, fun hp => ?_⟩)
    rw [hw.sound.eq_of_ptr_eq hx hw.mem hp, hInit] at hGot
    cases hGot
  settled := by
    rintro x - - ⟨y, hy, hgrp, hInit'⟩
    rcases hw.mem_iff.mp hy with ⟨hy, -⟩ | rfl
    · exact ⟨y, hy, hgrp, hInit'⟩
    · exact absurd hInit' hStat

theorem FrontHeld.mono (hf : FrontHeld ops h freed id n) (hg : Grants h h') :
    FrontHeld ops h' freed id n := by
  rcases hf with hf | ⟨r, hr, hGot, hSame, hFreed, hSettled⟩
  · exact Or.inl hf
  · exact Or.inr ⟨r, hg.got r hr hGot, hGot, hSame, hFreed,
      fun hu => hSettled (hg.settled r hr hGot hu)⟩

theorem FrontHeld.congr {id' : Id} (hs : ops.Same id id') (hf : FrontHeld ops h freed id n) :
    FrontHeld ops h freed id' n := by
  rcases hf with hf | ⟨r, hr, hGot, hSame, hRest⟩
  · exact Or.inl hf
  · exact Or.inr ⟨r, hr, hGot, hs.symm.trans hSame, hRest⟩

namespace WaitOrder

/-- A step that concerns one node, and takes no request back. -/
theorem update (ho : WaitOrder ops look h) (hCongr : ∀ a b, ops.Same a b → look a = look b)
    (hn : look id = some n)
    (hSorted : n'.lheadNodereq.tokenList.Pairwise fun a b => a.owner.grp < b.owner.grp)
    (hSteady : n'.baseNode.tokenQuotaNew = n'.baseNode.tokenQuota)
    (hQuota : n.baseNode.tokenQuota ≤ n'.baseNode.tokenQuota)
    (hOrigin : ∀ x ∈ h'.reqs, x.stat ≠ .failed ∧
      ∃ x₀ ∈ h.reqs, x₀.ptr = x.ptr ∧ x₀.tokenNeed = x.tokenNeed)
    (hAhead : ∀ r' ∈ h'.reqs, ∀ r ∈ h'.reqs, r'.stat = .got → r.stat = .init →
      ops.Same r'.tokenNeed.id r.tokenNeed.id → h'.Unsettled r'.tokenGrp →
      r'.tokenGrp < r.tokenGrp) :
    WaitOrder ops (setAt ops look id n') h' where
  sorted := by
    intro x nx hx
    rcases setAt_cases hx with ⟨-, rfl⟩ | ⟨-, hx⟩
    · exact hSorted
    · exact ho.sorted x nx hx
  ahead  := hAhead
  nofail := fun x hx => (hOrigin x hx).1
  once   := by
    intro x hx y hy hgrp hSame
    obtain ⟨-, x₀, hx₀, hxp, hxNeed⟩ := hOrigin x hx
    obtain ⟨-, y₀, hy₀, hyp, hyNeed⟩ := hOrigin y hy
    have hgrp₀ : x₀.tokenGrp = y₀.tokenGrp := by
      rw [show x₀.tokenGrp = x.tokenGrp from congrArg ReqPtr.grp hxp,
        show y₀.tokenGrp = y.tokenGrp from congrArg ReqPtr.grp hyp, hgrp]
    rw [← hxp, ← hyp]
    exact ho.once x₀ hx₀ y₀ hy₀ hgrp₀ (by rw [hxNeed, hyNeed]; exact hSame)
  steady := by
    intro x nx hx
    rcases setAt_cases hx with ⟨-, rfl⟩ | ⟨-, hx⟩
    · exact hSteady
    · exact ho.steady x nx hx
  within := by
    intro x hx nx hnx
    obtain ⟨-, x₀, hx₀, -, hNeed⟩ := hOrigin x hx
    rw [← hNeed] at hnx ⊢
    rcases setAt_cases hnx with ⟨hSame, rfl⟩ | ⟨-, hnx⟩
    · rw [hCongr _ _ hSame] at hn
      exact BitVec.le_trans (ho.within x₀ hx₀ n hn) hQuota
    · exact ho.within x₀ hx₀ nx hnx

/-- The counters of a node change; its quota is not lowered. -/
theorem setBase (ho : WaitOrder ops look h) (hCongr : ∀ a b, ops.Same a b → look a = look b)
    (hn : look id = some n) {base : DispatchBaseNode} (hSteady : base.tokenQuotaNew = base.tokenQuota)
    (hQuota : n.baseNode.tokenQuota ≤ base.tokenQuota) :
    WaitOrder ops (setAt ops look id { n with baseNode := base }) h :=
  ho.update hCongr hn (ho.sorted id n hn) hSteady hQuota
    (fun x hx => ⟨ho.nofail x hx, x, hx, rfl, rfl⟩) ho.ahead

/-- The front of a queue is granted. -/
theorem grantFront (ho : WaitOrder ops look h)
    (ha : Accounts ops fenced calm look version h [] freed) (hn : look id = some n)
    {rs : ResourceList Id} {rest : List (ResourceList Id)}
    (hTokens : n.lheadNodereq.tokenList = rs :: rest) (press : ULong) (hr : r ∈ h.reqs)
    (hInit : r.stat = .init) (hPtr : r.ptr = rs.owner) :
    WaitOrder ops
      (setAt ops look id
        { n with
          baseNode     := n.baseNode.chargeSection rs.rs.cost
          lheadNodereq := ⟨press, rest⟩ })
      (h.toGot rs.owner).1 := by
  rw [← hPtr]
  have hw := (ha.sound.toGot hr hInit).rewrites ha.sound hr
  have hSorted := ho.sorted id n hn
  rw [hTokens, List.pairwise_cons] at hSorted
  have hSteady := ho.steady id n hn
  have hQuota : (n.baseNode.chargeSection rs.rs.cost).tokenQuota = n.baseNode.tokenQuota :=
    DispatchBaseNode.chargeSection_tokenQuota hSteady
  -- the request granted is the one at the front
  have hHere : ops.Same id r.tokenNeed.id := by
    obtain ⟨x, hx, heq⟩ := ((ha.node id n hn).queued rs).mp (by simp [hTokens])
    have hp : x.ptr = r.ptr := by
      rw [hPtr, ← heq]
      rfl
    exact ha.sound.eq_of_ptr_eq hx.mem hr hp ▸ hx.same
  refine ho.update ha.congr hn hSorted.2 ?_ (by rw [hQuota]; exact BitVec.le_refl _) ?_ ?_
  · simp only [DispatchBaseNode.chargeSection_tokenQuotaNew, hQuota]
    exact hSteady
  · intro x hx
    rcases hw.mem_iff.mp hx with ⟨hx, -⟩ | rfl
    · exact ⟨ho.nofail x hx, x, hx, rfl, rfl⟩
    · exact ⟨by simp, r, hr, rfl, rfl⟩
  · intro y hy x hx hGot hWait hSame hu
    obtain ⟨hx, hxp⟩ := (hw.mem_iff.mp hx).resolve_right fun heq => by
      rw [heq] at hWait
      cases hWait
    rcases hw.mem_iff.mp hy with ⟨hy, -⟩ | rfl
    · exact ho.ahead y hy x hx hGot hWait hSame ((hw.grants hInit (by simp)).settled y hy hGot hu)
    · -- whoever still waits here stands behind the front
      have hMem : x.needList ∈ rs :: rest := by
        rw [← hTokens]
        exact ((ha.node id n hn).queued _).mpr ⟨x, ⟨hx, hWait, hHere.trans hSame, by simp⟩, rfl⟩
      have hRest := (List.mem_cons.mp hMem).resolve_left fun heq => hxp <| by
        rw [hPtr, ← heq]
        rfl
      have := hSorted.1 _ hRest
      rwa [← hPtr] at this

end WaitOrder

-- ---------------------------------------------------------------------------
-- Operations of one node
-- ---------------------------------------------------------------------------

/-- What an operation of the node of `id` does to the order of waiting. -/
structure OrderEffect (ops : IdOps Id) (look : Id → Option (DispatchNode Id)) (h : GrpHeap Id)
    (id : Id) (n' : DispatchNode Id) (h' : GrpHeap Id) : Prop where
  order  : WaitOrder ops (setAt ops look id n') h'
  grants : Grants h h'

theorem OrderEffect.refl (ho : WaitOrder ops look h)
    (hCongr : ∀ a b, ops.Same a b → look a = look b) (hn : look id = some n) :
    OrderEffect ops look h id n h where
  order  := by
    rw [setAt_of_look hCongr hn]
    exact ho
  grants := .refl h

/-- An operation that first changes the node, then goes on. -/
theorem OrderEffect.of_setAt (he : OrderEffect ops (setAt ops look id n) h id n' h') :
    OrderEffect ops look h id n' h' where
  order  := by
    have := he.order
    rwa [setAt_setAt] at this
  grants := he.grants

theorem pump_order {got got' : List GrpPtr} (tokenList : List (ResourceList Id))
    (ho : WaitOrder ops look h) (ha : Accounts ops fenced calm look version h [] freed)
    (hn : look id = some n) (hTokens : n.lheadNodereq.tokenList = tokenList)
    {base : DispatchBaseNode} {tokens : NodereqList Id}
    (heq : DispatchNode.pump n.baseNode n.lheadNodereq.press h got tokenList =
      (base, tokens, h', got')) :
    OrderEffect ops look h id { n with baseNode := base, lheadNodereq := tokens } h' := by
  induction tokenList generalizing look h n got with
  | nil =>
    simp only [DispatchNode.pump, Prod.mk.injEq] at heq
    obtain ⟨rfl, rfl, rfl, rfl⟩ := heq
    rw [← hTokens]
    exact .refl ho ha.congr hn
  | cons rs rest ih =>
    unfold DispatchNode.pump at heq
    rcases n.baseNode.tryAllocFromDesc_cases rs.rs.cost with ⟨hFits, hAlloc⟩ | ⟨-, hAlloc⟩
    · rw [hAlloc] at heq
      simp only at heq
      obtain ⟨r, hr, hInit, hPtr, ha₁⟩ := ha.grantFront hn hTokens hFits
      have ho₁ := ho.grantFront ha hn hTokens (n.lheadNodereq.press - rs.rs.cost) hr hInit hPtr
      have hGrants := ((ha.sound.toGot hr hInit).rewrites ha.sound hr).grants hInit (by simp)
      rw [hPtr] at hGrants
      rw [← DispatchNode.grantFront_fst h rs.owner got] at ho₁ ha₁ hGrants
      have he := ih ho₁ ha₁ (setAt_self look id _) rfl heq
      exact ⟨he.of_setAt.order, hGrants.trans he.grants⟩
    · rw [hAlloc] at heq
      simp only [Prod.mk.injEq] at heq
      obtain ⟨rfl, rfl, rfl, rfl⟩ := heq
      rw [← hTokens]
      exact .refl ho ha.congr hn

theorem resourceIncreased_order (got : List GrpPtr) (ho : WaitOrder ops look h)
    (ha : Accounts ops fenced calm look version h [] freed) (hn : look id = some n) :
    OrderEffect ops look h id (n.resourceIncreased h got).1 (n.resourceIncreased h got).2.1 := by
  unfold DispatchNode.resourceIncreased
  split
  · exact .refl ho ha.congr hn
  · exact pump_order _ ho ha hn rfl rfl

/-- The queue of the node was served, and the others stand still as before. -/
theorem frontHeld_of_served {look' : Id → Option (DispatchNode Id)} {freed' : List ReqPtr}
    (hLook : look' = setAt ops look id n')
    (hf : ∀ x nx, look x = some nx → FrontHeld ops h freed x nx) (hg : Grants h h')
    (hServed : ∀ rs ∈ n'.lheadNodereq.front, ¬ n'.baseNode.Fits rs.rs.cost)
    (hFreed : ∀ r ∈ h.reqs, r.ptr ∈ freed' → r.ptr ∈ freed ∨ ops.Same id r.tokenNeed.id) :
    ∀ x nx, look' x = some nx → FrontHeld ops h' freed' x nx := by
  intro x nx hx
  rw [hLook] at hx
  rcases setAt_cases hx with ⟨-, rfl⟩ | ⟨hNot, hx⟩
  · exact Or.inl hServed
  · rcases hf x nx hx with hf | ⟨r, hr, hGot, hSame, hOld, hSettled⟩
    · exact Or.inl hf
    · refine Or.inr ⟨r, hg.got r hr hGot, hGot, hSame, fun hp => ?_,
        fun hu => hSettled (hg.settled r hr hGot hu)⟩
      rcases hFreed r hr hp with hp | hHere
      · exact hOld hp
      · exact hNot (hHere.trans hSame.symm)

-- ---------------------------------------------------------------------------
-- The whole manager
-- ---------------------------------------------------------------------------

/-- Who waits, waits for a reason: in the middle of a put, with the tokens of
the requests in `freed` given back. -/
structure Fair (m : Manager ops) (freed : List ReqPtr) : Prop where
  order : WaitOrder ops m.node? m.groups
  front : ∀ id n, m.node? id = some n → FrontHeld ops m.groups freed id n

variable {m m₁ m' : Manager ops}

/-- A node operation that ends with the pump. -/
theorem Fair.of_served {freed' : List ReqPtr} (hf : Fair m freed) (hn : m.node? id = some n)
    (he : OrderEffect ops m.node? m.groups id n' h')
    (hServed : ∀ rs ∈ n'.lheadNodereq.front, ¬ n'.baseNode.Fits rs.rs.cost)
    (hFreed : ∀ r ∈ m.groups.reqs, r.ptr ∈ freed' → r.ptr ∈ freed ∨ ops.Same id r.tokenNeed.id) :
    Fair (m.setNode id n' h') freed' := by
  have hLook : (m.setNode id n' h').node? = setAt ops m.node? id n' := node?_setNode hn
  refine ⟨?_, frontHeld_of_served hLook hf.front he.grants hServed hFreed⟩
  rw [hLook]
  exact he.order

/-- The put loop gives one request back, to the node that granted it. -/
theorem tryToFreeToManager_fair (relative : List GrpPtr) (hf : Fair m freed)
    (ha : m.Books fenced True [] freed) (hr : r ∈ m.groups.reqs) (hGot : r.stat = .got)
    (hNew : r.ptr ∉ freed) :
    Fair (m.tryToFreeToManager r relative).1 (r.ptr :: freed) ∧
      Grants m.groups (m.tryToFreeToManager r relative).1.groups := by
  obtain ⟨n, hn, hFence⟩ := ha.home trivial r hr hGot
  have hBase : WaitOrder ops
      (setAt ops m.node? r.tokenNeed.id
        { n with baseNode := n.baseNode.freeToDesc r.tokenNeed.cost })
      m.groups :=
    hf.order.setBase ha.congr hn (hf.order.steady _ n hn) (BitVec.le_refl _)
  have hFree := ha.freeSelf hr hGot hNew hn (ops.same_refl _) hFence
  have he := (resourceIncreased_order relative hBase hFree (setAt_self _ _ _)).of_setAt
  have hServed := DispatchNode.resourceIncreased_stops
    { n with baseNode := n.baseNode.freeToDesc r.tokenNeed.cost } m.groups relative
  unfold Manager.tryToFreeToManager
  rw [hn]
  simp only [DispatchNode.freeResource, if_pos hFence]
  refine ⟨hf.of_served hn he hServed fun x hx hp => ?_, he.grants⟩
  rcases List.mem_cons.mp hp with hp | hp
  · exact Or.inr (ha.sound.eq_of_ptr_eq hx hr hp ▸ ops.same_refl _)
  · exact Or.inl hp

/-- A settled group is dropped, once all it got is given back. -/
theorem Fair.drop {gid : GrpPtr} (hf : Fair m freed) (hs : m.groups.Sound)
    (hFreed : ∀ r ∈ m.groups.reqs, r.stat = .got → r.tokenGrp = gid → r.ptr ∈ freed)
    (hNode : m'.node? = m.node?) (hGroups : m'.groups = erase TokenReqgrp.gid gid m.groups) :
    Fair m' [] := by
  have hMem : ∀ r, r ∈ m'.groups.reqs ↔ r ∈ m.groups.reqs ∧ r.tokenGrp ≠ gid := by
    intro r
    rw [hGroups, hs.reqs_erase, List.mem_filter, decide_eq_true_eq]
  have hUnsettled : ∀ gid', m'.groups.Unsettled gid' → m.groups.Unsettled gid' := by
    rintro gid' ⟨x, hx, hgrp, hInit⟩
    exact ⟨x, ((hMem x).mp hx).1, hgrp, hInit⟩
  have ho := hf.order
  refine ⟨⟨fun x nx hx => ho.sorted x nx (hNode ▸ hx), ?_, fun r hr => ho.nofail r ((hMem r).mp hr).1,
    fun r hr r' hr' => ho.once r ((hMem r).mp hr).1 r' ((hMem r').mp hr').1,
    fun x nx hx => ho.steady x nx (hNode ▸ hx),
    fun r hr nx hx => ho.within r ((hMem r).mp hr).1 nx (hNode ▸ hx)⟩, ?_⟩
  · intro r' hr' r hr hGot hInit hSame hu
    exact ho.ahead r' ((hMem r').mp hr').1 r ((hMem r).mp hr).1 hGot hInit hSame (hUnsettled _ hu)
  · intro x nx hx
    rcases hf.front x nx (hNode ▸ hx) with hFront | ⟨r, hr, hGot, hSame, hNew, hSettled⟩
    · exact Or.inl hFront
    · refine Or.inr ⟨r, (hMem r).mpr ⟨hr, fun hgid => hNew (hFreed r hr hGot hgid)⟩, hGot, hSame,
        by simp, fun hu => hSettled (hUnsettled _ hu)⟩

theorem putTokenGrp_fair {g : TokenReqgrp Id} (hf : Fair m []) (ha : m.Books fenced True [] [])
    (hg : group? m.groups g.gid = some g) (hz : g.initNr = 0) :
    Fair (m.putTokenGrp g.gid none).1 [] := by
  obtain ⟨⟨hBooks, hf'⟩, hg'⟩ := tryToPutTokens_rule
    (P := fun m _ freed => (m.Books fenced True [] freed ∧ Fair m freed) ∧
      group? m.groups g.gid = some g)
    (fun m _ freed hP => ⟨hP.1.1.sound, hP.2⟩)
    (fun m relative freed r hP hr hGot hNew => by
      obtain ⟨⟨ha, hf⟩, hg⟩ := hP
      have hrm : r ∈ m.groups.reqs := mem_reqs.mpr ⟨g, mem_of_lookup hg, hr⟩
      have hStep := tryToFreeToManager_effect relative ha hrm hGot hNew
      obtain ⟨_, -, hSettles⟩ := hStep.settles
      exact ⟨⟨hStep.books, (tryToFreeToManager_fair relative hf ha hrm hGot hNew).1⟩,
        hSettles.kept g.gid g hg hz⟩)
    g.lheadReqgrp (fun _ hr => hr) (ha.sound.group g (mem_of_lookup hg)).nodup_ptr m [] []
    (by simp) ⟨⟨ha, hf⟩, hg⟩
  unfold Manager.putTokenGrp
  simp only [Option.map_none, Option.getD_none, Manager.checkNodeOutWhenPut, hg]
  unfold Manager.freeGroup
  rw [hg']
  refine hf'.drop hBooks.sound (fun r hr hGot hgid => ?_) rfl rfl
  obtain ⟨g', hg'', hr'⟩ := hBooks.sound.group?_of_mem hr
  rw [hgid, hg'] at hg''
  obtain rfl := Option.some.inj hg''
  exact mem_freedAfter.mpr (Or.inr ⟨r, mem_of_lookup hr', hGot, rfl⟩)

-- ---------------------------------------------------------------------------
-- Nodes and messages
-- ---------------------------------------------------------------------------

/-- Nobody names a node that is offline, where none went offline. -/
theorem node?_of_mem (hf : WaitOrder ops m.node? m.groups) (ha : m.Books fenced True [] [])
    (hr : r ∈ m.groups.reqs) : ∃ n, m.node? r.tokenNeed.id = some n := by
  cases hStat : r.stat with
  | init => exact ha.waiting r hr hStat (by simp)
  | got =>
    obtain ⟨n, hn, -⟩ := ha.home trivial r hr hStat
    exact ⟨n, hn⟩
  | failed => exact absurd hStat (hf.nofail r hr)

/-- Nodes come online; the groups stay as they are. -/
theorem Fair.join (hf : Fair m []) (ha : m.Books fenced True [] []) (hj : NodesJoin m m')
    (hGroups : m'.groups = m.groups) : Fair m' [] where
  order := by
    have ho := hf.order
    rw [hGroups]
    refine ⟨fun id n hn => ?_, ho.ahead, ho.nofail, ho.once, fun id n hn => ?_,
      fun r hr n hn => ?_⟩
    · rcases hj.new id n hn with hn | ⟨-, _, rfl⟩
      · exact ho.sorted id n hn
      · exact List.Pairwise.nil
    · rcases hj.new id n hn with hn | ⟨-, _, rfl⟩
      · exact ho.steady id n hn
      · rfl
    · obtain ⟨n₀, hn₀⟩ := node?_of_mem ho ha hr
      rw [hj.kept _ n₀ hn₀] at hn
      exact Option.some.inj hn ▸ ho.within r hr n₀ hn₀
  front := by
    intro id n hn
    rw [hGroups]
    rcases hj.new id n hn with hn | ⟨-, _, rfl⟩
    · exact hf.front id n hn
    · exact Or.inl (by simp [DispatchNode.init, NodereqList.front])

theorem nodeOnline_fair (hf : Fair m []) (ha : m.Books fenced True [] [])
    (h : m.nodeOnline id = some m') : Fair m' [] :=
  hf.join ha (nodeOnline_joins h) (nodeOnline_groups h)

/-- A message that lowers no quota. -/
def DispatchBaseNode.NotLowered (b : DispatchBaseNode) (dta : Dispatch2App) : Prop :=
  b.version ≤ dta.version ∧ (b.version < dta.version → b.tokenQuota ≤ dta.tokenQuota)

/-- The quota goes up, and the queue is served, or nothing that matters here
changes. -/
theorem DispatchBaseNode.NotLowered.cases {b : DispatchBaseNode} {dta : Dispatch2App}
    (hd : b.NotLowered dta) :
    ∃ base isIncreased,
      b.checkUpdateTotalVersion dta.tokenQuota dta.version = (base, ⟨isIncreased, false⟩) ∧
        (b.tokenQuotaNew = b.tokenQuota → base.tokenQuotaNew = base.tokenQuota) ∧
        b.tokenQuota ≤ base.tokenQuota ∧
        (isIncreased = false → base.tokenInuse = b.tokenInuse ∧ base.tokenQuota = b.tokenQuota) := by
  obtain ⟨hVersion, hQuota⟩ := hd
  rcases b.checkUpdateTotalVersion_cases dta.tokenQuota dta.version with
    ⟨hOld, -⟩ | ⟨-, h⟩ | ⟨-, hUp, h⟩ | ⟨hNew, hDown, -⟩ | ⟨-, -, h⟩
  · omega
  · exact ⟨_, _, h, id, BitVec.le_refl _, fun _ => ⟨rfl, rfl⟩⟩
  · exact ⟨_, _, h, fun _ => rfl, BitVec.le_of_lt hUp, by simp⟩
  · exact absurd hDown (BitVec.not_lt.mpr (hQuota hNew))
  · exact ⟨_, _, h, id, BitVec.le_refl _, fun _ => ⟨rfl, rfl⟩⟩

theorem rcvd_fair {dta : Dispatch2App} {callbacks : List Callback} (hf : Fair m [])
    (ha : m.Books fenced True [] []) (h : m.rcvd id dta = some (m', callbacks))
    (hd : ∀ n, m.node? id = some n → n.baseNode.NotLowered dta) : Fair m' [] := by
  unfold Manager.rcvd at h
  split at h
  · obtain ⟨m₁, hm₁, heq⟩ := Option.map_eq_some_iff.mp h
    obtain ⟨rfl, -⟩ := Prod.mk.inj heq
    exact nodeOnline_fair hf ha hm₁
  · rename_i item hItem
    obtain ⟨base, isIncreased, hCheck, hSteady, hQuota, hSame⟩ := (hd item hItem).cases
    have hSteady := hSteady (hf.order.steady id item hItem)
    have hInuse : base.tokenInuse = item.baseNode.tokenInuse := by
      have := item.baseNode.checkUpdateTotalVersion_tokenInuse dta.tokenQuota dta.version
      rwa [hCheck] at this
    have ho := hf.order.setBase ha.congr hItem hSteady hQuota
    have ha₁ := ha.setBase hItem hInuse
    have hServed := DispatchNode.resourceIncreased_stops { item with baseNode := base } m.groups []
    have he := (resourceIncreased_order [] ho ha₁ (setAt_self _ _ _)).of_setAt
    cases isIncreased with
    | true =>
      simp only [DispatchNode.resourceChanged, hCheck, if_true] at h
      obtain ⟨rfl, -⟩ := Prod.mk.inj (Option.some.inj h)
      exact hf.of_served hItem he hServed (by simp)
    | false =>
      simp only [DispatchNode.resourceChanged, hCheck, Bool.false_eq_true, if_false] at h
      obtain ⟨rfl, -⟩ := Prod.mk.inj (Option.some.inj h)
      have hLook : (m.setNode id { item with baseNode := base } m.groups).node? =
          setAt ops m.node? id { item with baseNode := base } := node?_setNode hItem
      refine ⟨by rw [hLook]; exact ho, fun x nx hx => ?_⟩
      rw [hLook] at hx
      rcases setAt_cases hx with ⟨hHere, rfl⟩ | ⟨-, hx⟩
      · rcases (hf.front id item hItem).congr hHere with hFront | hHeld
        · refine Or.inl fun rs hrs => ?_
          have := hFront rs hrs
          unfold DispatchBaseNode.Fits at this ⊢
          rwa [(hSame rfl).1, (hSame rfl).2]
        · exact Or.inr hHeld
      · exact hf.front x nx hx

end DatastorQos
