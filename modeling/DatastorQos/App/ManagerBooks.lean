import DatastorQos.App.Accounts
import DatastorQos.App.Incarnations

/-!
# datastor_qos — every operation keeps the books

The steps of `Accounts` along the loops of the source: the pump, `pop_all`, the
loops of get and put over the requests of a group, and the operations that
re-enter others. Each result has two halves, what becomes of the books and
which groups are settled on the way.
-/

namespace DatastorQos

open Keyed GrpHeap

variable {Id : Type} {ops : IdOps Id} {fenced calm : Prop}
  {look : Id → Option (DispatchNode Id)} {version : Nat} {h h' : GrpHeap Id}
  {unplaced freed : List ReqPtr} {id : Id} {n n' : DispatchNode Id} {r : TokenReq Id}
  {got got' : List GrpPtr}

-- ---------------------------------------------------------------------------
-- Operations of one node
-- ---------------------------------------------------------------------------

/-- What an operation of the node of `id` leaves behind: the node, memory, and
the collected groups, the groups it settled in front of those before. -/
structure NodeEffect (ops : IdOps Id) (fenced calm : Prop) (look : Id → Option (DispatchNode Id))
    (version : Nat) (h : GrpHeap Id) (id : Id) (got : List GrpPtr) (unplaced freed : List ReqPtr)
    (n' : DispatchNode Id) (h' : GrpHeap Id) (got' : List GrpPtr) : Prop where
  accounts : Accounts ops fenced calm (setAt ops look id n') version h' unplaced freed
  settles  : ∃ settled, got' = settled ++ got ∧ Settles h settled h'

theorem NodeEffect.refl (ha : Accounts ops fenced calm look version h unplaced freed)
    (hn : look id = some n) :
    NodeEffect ops fenced calm look version h id got unplaced freed n h got where
  accounts := by
    rw [setAt_of_look ha.congr hn]
    exact ha
  settles  := ⟨[], rfl, .refl ha.sound⟩

/-- The group of a granted request is collected exactly when it is settled. -/
theorem grantFront_settles (got : List GrpPtr) (hs : h.Sound) (hr : r ∈ h.reqs)
    (hInit : r.stat = .init) :
    ∃ settled, (DispatchNode.grantFront h r.ptr got).2 = settled ++ got ∧
      Settles h settled (DispatchNode.grantFront h r.ptr got).1 := by
  have hErr := h.toGot_err r.ptr
  have hSettles := Settles.of_resolved (hs.toGot hr hInit)
  rw [DispatchNode.grantFront_fst]
  unfold DispatchNode.grantFront
  generalize h.toGot r.ptr = res at hErr hSettles ⊢
  obtain ⟨h', err⟩ := res
  simp only at hErr hSettles
  rcases hErr with rfl | rfl | rfl
  · exact ⟨[], rfl, hSettles⟩
  · exact ⟨[r.ptr.grp], rfl, hSettles⟩
  · exact ⟨[r.ptr.grp], rfl, hSettles⟩

/-- The pump, by induction on the queue. -/
theorem pump_effect (tokenList : List (ResourceList Id))
    (ha : Accounts ops fenced calm look version h unplaced freed) (hn : look id = some n)
    (hTokens : n.lheadNodereq.tokenList = tokenList) {base : DispatchBaseNode}
    {tokens : NodereqList Id}
    (heq : DispatchNode.pump n.baseNode n.lheadNodereq.press h got tokenList =
      (base, tokens, h', got')) :
    NodeEffect ops fenced calm look version h id got unplaced freed
      { n with baseNode := base, lheadNodereq := tokens } h' got' := by
  have hDone : ∀ rest, n.lheadNodereq.tokenList = rest →
      (n.baseNode, (⟨n.lheadNodereq.press, rest⟩ : NodereqList Id), h, got) =
        (base, tokens, h', got') →
      NodeEffect ops fenced calm look version h id got unplaced freed
        { n with baseNode := base, lheadNodereq := tokens } h' got' := by
    rintro rest rfl heq
    simp only [Prod.mk.injEq] at heq
    obtain ⟨rfl, rfl, rfl, rfl⟩ := heq
    exact NodeEffect.refl ha hn
  induction tokenList generalizing look h n got with
  | nil => exact hDone [] hTokens heq
  | cons rs rest ih =>
    unfold DispatchNode.pump at heq
    rcases n.baseNode.tryAllocFromDesc_cases rs.rs.cost with ⟨hFits, hAlloc⟩ | ⟨-, hAlloc⟩
    · rw [hAlloc] at heq
      simp only at heq
      obtain ⟨r, hr, hInit, hPtr, ha₁⟩ := ha.grantFront hn hTokens hFits
      obtain ⟨settled, hGot, hSettles⟩ := grantFront_settles got ha.sound hr hInit
      rw [hPtr] at hGot hSettles
      rw [← DispatchNode.grantFront_fst h rs.owner got] at ha₁
      have ih := ih ha₁ (setAt_self look id _) rfl heq
        (by
          rintro _ rfl heq
          simp only [Prod.mk.injEq] at heq
          obtain ⟨rfl, rfl, rfl, rfl⟩ := heq
          exact NodeEffect.refl ha₁ (setAt_self look id _))
      obtain ⟨settled', hGot', hSettles'⟩ := ih.settles
      refine ⟨?_, settled' ++ settled, ?_, hSettles.trans hSettles'⟩
      · have := ih.accounts
        rwa [setAt_setAt] at this
      · rw [hGot', hGot, List.append_assoc]
    · rw [hAlloc] at heq
      exact hDone (rs :: rest) hTokens heq

/-- Serving the queue grants its front: by induction on it, one grant at a time. -/
theorem resourceIncreased_effect (ha : Accounts ops fenced calm look version h unplaced freed)
    (hn : look id = some n) :
    NodeEffect ops fenced calm look version h id got unplaced freed (n.resourceIncreased h got).1
      (n.resourceIncreased h got).2.1 (n.resourceIncreased h got).2.2 := by
  unfold DispatchNode.resourceIncreased
  split
  · exact NodeEffect.refl ha hn
  · exact pump_effect _ ha hn rfl rfl

/-- An operation that first changes the node, then pumps it. -/
theorem NodeEffect.of_setAt
    (ha : NodeEffect ops fenced calm (setAt ops look id n) version h id got unplaced freed n' h' got') :
    NodeEffect ops fenced calm look version h id got unplaced freed n' h' got' where
  accounts := by
    have := ha.accounts
    rwa [setAt_setAt] at this
  settles  := ha.settles

/-- A message writes the counters that no book is kept of, and may serve the queue. -/
theorem resourceChanged_effect (got : List GrpPtr)
    (ha : Accounts ops fenced calm look version h unplaced freed)
    (hn : look id = some n) (dta : Dispatch2App) :
    NodeEffect ops fenced calm look version h id got unplaced freed (n.resourceChanged h dta got).1
      (n.resourceChanged h dta got).2.1 (n.resourceChanged h dta got).2.2.1 := by
  have ha₁ := ha.setBase hn
    (n.baseNode.checkUpdateTotalVersion_tokenInuse dta.tokenQuota dta.version)
  obtain ⟨_, hEq | hEq⟩ := n.resourceChanged_cases dta h got <;> rw [hEq]
  · exact NodeEffect.of_setAt (resourceIncreased_effect ha₁ (setAt_self look id _))
  · exact NodeEffect.of_setAt (NodeEffect.refl ha₁ (setAt_self look id _))

/-- `free_resource`: the request counts as freed, whichever incarnation gave
its tokens. -/
theorem freeResource_effect (got : List GrpPtr)
    (ha : Accounts ops fenced calm look version h unplaced freed)
    (hr : r ∈ h.reqs) (hGot : r.stat = .got) (hNew : r.ptr ∉ freed)
    (hn : look r.tokenNeed.id = some n) :
    NodeEffect ops fenced calm look version h r.tokenNeed.id got unplaced (r.ptr :: freed)
      (n.freeResource h r got).1 (n.freeResource h r got).2.1 (n.freeResource h r got).2.2 := by
  unfold DispatchNode.freeResource
  split
  · rename_i hFence
    exact NodeEffect.of_setAt (resourceIncreased_effect
      (ha.freeSelf hr hGot hNew hn (ops.same_refl _) hFence) (setAt_self look _ _))
  · rename_i hFence
    refine NodeEffect.refl (ha.freeStale hr hGot fun nx hx heq => hFence ?_) hn
    rw [heq, ← Option.some.inj (hn.symm.trans hx)]

/-- `pop_all`'s loop: the requests taken off the queue fail one by one. -/
theorem failAll_effect (got : List GrpPtr) (popped : List (ResourceList Id))
    (ha : Accounts ops fenced calm look version h (popped.map ResourceList.owner) freed)
    (hPopped : ∀ rs ∈ popped, ∃ r ∈ h.reqs, r.stat = .init ∧ r.ptr = rs.owner) :
    Accounts ops fenced calm look version (DispatchNode.failAll h got popped).1 [] freed ∧
      ∃ settled, (DispatchNode.failAll h got popped).2 = settled ++ got ∧
        Settles h settled (DispatchNode.failAll h got popped).1 := by
  induction popped generalizing h got with
  | nil => exact ⟨ha, [], rfl, .refl ha.sound⟩
  | cons rs rest ih =>
    obtain ⟨r, hr, hInit, hPtr⟩ := hPopped rs List.mem_cons_self
    rw [List.map_cons, ← hPtr] at ha
    have hRes := ha.sound.toFailed hr hInit
    have ha₁ := ha.fail hr hInit
    have hSettles := Settles.of_resolved hRes
    -- the others are still in `init`
    have hRest : ∀ rs ∈ rest, ∃ x ∈ (h.toFailed r.ptr).1.reqs, x.stat = .init ∧
        x.ptr = rs.owner := by
      intro rs' hrs'
      obtain ⟨x, hx, hStat, hxp⟩ := hPopped rs' (List.mem_cons_of_mem _ hrs')
      refine ⟨x, (hRes.rewrites ha.sound hr).mem_iff.mpr (Or.inl ⟨hx, fun hp => ?_⟩), hStat, hxp⟩
      refine (List.nodup_cons.mp ha.unplaced_nodup).1 ?_
      rw [← hp, hxp]
      exact List.mem_map_of_mem hrs'
    have hErr := h.toFailed_err r.ptr
    unfold DispatchNode.failAll
    rw [← hPtr]
    generalize h.toFailed r.ptr = res at ha₁ hSettles hRest hErr ⊢
    obtain ⟨h₁, err⟩ := res
    simp only at ha₁ hSettles hRest hErr
    rcases hErr with rfl | rfl
    · obtain ⟨ha₂, settled, hGot, hSettles'⟩ := ih got ha₁ hRest
      exact ⟨ha₂, settled, hGot, by simpa using hSettles.trans hSettles'⟩
    · obtain ⟨ha₂, settled, hGot, hSettles'⟩ := ih (r.ptr.grp :: got) ha₁ hRest
      refine ⟨ha₂, settled ++ [r.ptr.grp], ?_, by simpa using hSettles.trans hSettles'⟩
      rw [List.append_assoc]
      exact hGot

/-- Emptying the queue fails what it holds. -/
theorem popAll_effect (got : List GrpPtr) (ha : Accounts ops fenced calm look version h [] freed)
    (hn : look id = some n) :
    NodeEffect ops fenced calm look version h id got [] freed (n.popAll h got).1 (n.popAll h got).2.1
      (n.popAll h got).2.2 := by
  have ha₁ := ha.takeAll hn
  have hPopped : ∀ rs ∈ n.lheadNodereq.tokenList,
      ∃ r ∈ h.reqs, r.stat = .init ∧ r.ptr = rs.owner := by
    intro rs hrs
    obtain ⟨r, hr, rfl⟩ := ((ha.node id n hn).queued rs).mp hrs
    exact ⟨r, hr.mem, hr.stat, rfl⟩
  obtain ⟨ha₂, hSettles⟩ := failAll_effect got _ ha₁ hPopped
  unfold DispatchNode.popAll
  simp only [NodereqList.popAll_popped]
  exact ⟨ha₂, hSettles⟩

/-- What placing one request leaves behind: the other requests as they were, the
other groups as they were, and `err`, the verdict of its own group if it is
settled now. -/
structure PlaceEffect (ops : IdOps Id) (fenced calm : Prop) (version : Nat) (h : GrpHeap Id)
    (r : TokenReq Id) (unplaced freed : List ReqPtr) (look' : Id → Option (DispatchNode Id))
    (h' : GrpHeap Id) (err : QosError) : Prop where
  accounts : Accounts ops fenced calm look' version h' unplaced freed
  others   : ∀ x ∈ h.reqs, x.ptr ≠ r.ptr → x ∈ h'.reqs
  group    : ∃ g', group? h' r.tokenGrp = some g' ∧
    err = if g'.initNr = 0 then g'.err else .pending
  rest     : ∀ gid, gid ≠ r.tokenGrp → group? h' gid = group? h gid

/-- A request that is settled at once. -/
theorem PlaceEffect.of_resolved {look' : Id → Option (DispatchNode Id)} {s : AppTokenStat}
    {err : QosError} (hs : h.Sound) (hr : r ∈ h.reqs) (hRes : GrpHeap.Resolved h r.ptr s h' err)
    (ha : Accounts ops fenced calm look' version h' unplaced freed) :
    PlaceEffect ops fenced calm version h r unplaced freed look' h' err where
  accounts := ha
  others   := fun _ hx hne => (hRes.rewrites hs hr).mem_iff.mpr (Or.inl ⟨hx, hne⟩)
  group    := by
    obtain ⟨g, g', -, hg', hOther⟩ := hRes.group
    exact ⟨g', (hOther _).trans (if_pos rfl), hg'.err_eq⟩
  rest     := by
    obtain ⟨g, g', -, -, hOther⟩ := hRes.group
    exact fun gid hne => (hOther gid).trans (if_neg hne)

/-- A request is granted at once, or joins the queue. -/
theorem allocResource_effect (ha : Accounts ops fenced calm look version h (r.ptr :: unplaced) freed)
    (hr : r ∈ h.reqs) (hInit : r.stat = .init) (hn : look r.tokenNeed.id = some n) :
    PlaceEffect ops fenced calm version h r unplaced freed
      (setAt ops look r.tokenNeed.id (n.allocResource h r.needList).1)
      (n.allocResource h r.needList).2.1 (n.allocResource h r.needList).2.2 := by
  have ha₁ := ha.setNodeid hr hInit List.mem_cons_self n.fenceId
  have hw := ha.sound.rewrites_setNodeid hr n.fenceId
  have hr₁ := hw.mem_iff.mpr (Or.inr rfl)
  have hSame := ops.same_refl r.tokenNeed.id
  have hRest : ∀ gid, gid ≠ r.tokenGrp →
      group? (h.setNodeid r.ptr n.fenceId) gid = group? h gid :=
    fun gid hne => (group?_setNodeid h r.ptr n.fenceId gid).trans (if_neg hne)
  by_cases hFits : n.baseNode.Fits r.tokenNeed.cost
  · rw [DispatchNode.allocResource_of_fits (show n.baseNode.Fits r.needList.rs.cost from hFits)]
    have hRes := ha₁.sound.toGot hr₁ hInit
    have ha₂ := ha₁.placeGot (r := { r with nodeid := n.fenceId }) hr₁ hInit hn hSame rfl hFits
    have hPlace := PlaceEffect.of_resolved ha₁.sound hr₁ hRes ha₂
    refine ⟨ha₂, fun x hx hne => ?_, hPlace.group, fun gid hne => ?_⟩
    · exact hPlace.others x (hw.mem_iff.mpr (Or.inl ⟨hx, hne⟩)) hne
    · exact (hPlace.rest gid hne).trans (hRest gid hne)
  · rw [DispatchNode.allocResource_of_not_fits
      (show ¬ n.baseNode.Fits r.needList.rs.cost from hFits)]
    have ha₂ := ha₁.placeQueue (r := { r with nodeid := n.fenceId }) hr₁ hInit hn hSame rfl
    refine ⟨ha₂, fun x hx hne => hw.mem_iff.mpr (Or.inl ⟨hx, hne⟩), ?_, hRest⟩
    -- the request waits, so its group is not settled
    obtain ⟨g', hg', hrg⟩ := ha₁.sound.group?_of_mem hr₁
    refine ⟨g', hg', ?_⟩
    rw [if_neg]
    have := TokenReqgrp.initNr_pos hrg hInit
    omega

-- ---------------------------------------------------------------------------
-- Operations of the manager
-- ---------------------------------------------------------------------------

/-- The books of a manager. -/
abbrev Manager.Books (fenced calm : Prop) (m : Manager ops) (unplaced freed : List ReqPtr) : Prop :=
  Accounts ops fenced calm m.node? m.version m.groups unplaced freed

/-- An operation keeps the books, calls back the groups it settles, and
touches no record of a freed group. -/
structure OpEffect (fenced calm : Prop) (m : Manager ops) (callbacks : List Callback)
    (unplaced freed : List ReqPtr) (m' : Manager ops) : Prop where
  books    : m'.Books fenced calm unplaced freed
  delivers : Delivers m.groups callbacks m'.groups
  freed_eq : m'.freed = m.freed
  nextGrp_eq : m'.nextGrp = m.nextGrp

theorem OpEffect.refl {m : Manager ops} (ha : m.Books fenced calm unplaced freed) :
    OpEffect fenced calm m [] unplaced freed m :=
  ⟨ha, .refl ha.sound, rfl, rfl⟩

/-- Two operations, with the callbacks of both. -/
theorem OpEffect.trans {m m₁ m' : Manager ops} {l l' : List Callback}
    {unplaced' freed' : List ReqPtr}
    (a : OpEffect fenced calm m l unplaced' freed' m₁) (b : OpEffect fenced calm m₁ l' unplaced freed m') :
    OpEffect fenced calm m (l ++ l') unplaced freed m' :=
  ⟨b.books, a.delivers.trans b.delivers, b.freed_eq.trans a.freed_eq,
    b.nextGrp_eq.trans a.nextGrp_eq⟩

/-- An operation frees no group, makes none, and brings no node online. -/
structure SameCaches (m m' : Manager ops) : Prop where
  freed_eq   : m'.freed = m.freed
  nextGrp_eq : m'.nextGrp = m.nextGrp
  version_eq : m'.version = m.version

theorem SameCaches.refl (m : Manager ops) : SameCaches m m := ⟨rfl, rfl, rfl⟩

theorem SameCaches.trans {m m₁ m' : Manager ops} (a : SameCaches m m₁) (b : SameCaches m₁ m') :
    SameCaches m m' :=
  ⟨b.freed_eq.trans a.freed_eq, b.nextGrp_eq.trans a.nextGrp_eq,
    b.version_eq.trans a.version_eq⟩

/-- A node operation, through the table. -/
theorem node?_setNode {m : Manager ops} (hn : m.node? id = some n) :
    (m.setNode id n' h).node? = setAt ops m.node? id n' := by
  funext x
  unfold Manager.node? Manager.setNode setAt
  rw [HashTable.find_write]
  split
  · rename_i hSame
    rw [← HashTable.find_congr hSame, show m.appNodeTable.find id = some n from hn]
    rfl
  · rfl

/-- What a node did, seen from the manager. -/
theorem NodeEffect.books {m : Manager ops} (hn : m.node? id = some n)
    (he : NodeEffect ops fenced calm m.node? m.version m.groups id got unplaced freed n' h' got') :
    (m.setNode id n' h').Books fenced calm unplaced freed := by
  have := he.accounts
  rwa [← node?_setNode hn] at this

/-- Fences that were handed out stay handed out. -/
theorem version_mono {version' : Nat} (ha : Accounts ops fenced calm look version h unplaced freed)
    (hle : version ≤ version') : Accounts ops fenced calm look version' h unplaced freed where
  sound     := ha.sound
  congr     := ha.congr
  fence_lt  := fun id n hn =>
    let ⟨k, hk, heq⟩ := ha.fence_lt id n hn
    ⟨k, Nat.lt_of_lt_of_le hk hle, heq⟩
  fence_inj := ha.fence_inj
  got_lt    := fun r hr hGot =>
    let ⟨k, hk, heq⟩ := ha.got_lt r hr hGot
    ⟨k, Nat.lt_of_lt_of_le hk hle, heq⟩
  unplaced_nodup := ha.unplaced_nodup
  freed_got := ha.freed_got
  home      := ha.home
  waiting   := ha.waiting
  node      := ha.node

/-- A new node has nothing on its books. -/
theorem nodeOnline_effect {m m' : Manager ops} (ha : m.Books fenced calm unplaced freed)
    (h : m.nodeOnline id = some m') (hVersion : fenced → m'.version ≤ 2 ^ 32) :
    OpEffect fenced calm m [] unplaced freed m' := by
  cases Manager.nodeOnline_way h with
  | noItem _ => exact .refl ha
  | @joined _ table _ hInsert =>
    have hFind := fun x => HashTable.find_insert (x := x) hInsert
    have ha₁ := ha.online (show m.node? id = none from (hFind id).1) fun hFenced => by
      have := hVersion hFenced
      simp only at this
      omega
    refine ⟨?_, .refl ha.sound, rfl, rfl⟩
    have hLook : setAt ops m.node? id (.init (BitVec.ofNat 32 m.version)) = table.find := by
      funext x
      rw [(hFind x).2]
      rfl
    rwa [hLook] at ha₁
  | @known _ table _ hInsert =>
    refine ⟨?_, .refl ha.sound, rfl, rfl⟩
    have hLook : m.node? = table.find := by
      funext x
      exact (HashTable.find_insert_exist hInsert).symm
    have := version_mono ha (Nat.le_succ m.version)
    rwa [hLook] at this

/-- A node goes with an empty queue; what was granted of it is not on any books
from then on. -/
theorem nodeOffline_effect {m : Manager ops} (ha : m.Books fenced calm [] freed) (hCalm : ¬ calm)
    (id : Id) :
    OpEffect fenced calm m (m.nodeOffline id).2 [] freed (m.nodeOffline id).1 := by
  unfold Manager.nodeOffline
  split
  · exact .refl ha
  · rename_i item hItem
    have he := popAll_effect [] ha hItem
    have hBooks := he.books hItem
    obtain ⟨settled, hGot, hSettles⟩ := he.settles
    have hEmpty := item.popAll_tokenList m.groups []
    rw [List.append_nil] at hGot
    rw [← hGot] at hSettles
    generalize item.popAll m.groups [] = res at hBooks hSettles hEmpty ⊢
    obtain ⟨item', h', relative⟩ := res
    simp only at hBooks hSettles hEmpty ⊢
    refine ⟨?_, hSettles.delivers, rfl, rfl⟩
    have hSelf : (m.setNode id item' h').node? id = some item' := by
      rw [node?_setNode hItem]
      exact setAt_self _ _ _
    have hOff := hBooks.offline hCalm hSelf hEmpty
    have hLook : (fun x => if ops.Same id x then none else (m.setNode id item' h').node? x) =
        ((m.setNode id item' h').appNodeTable.erase id).1.find := by
      funext x
      exact HashTable.find_erase.symm
    rwa [hLook] at hOff

/-- A reset writes the quotas, not what is in use. -/
theorem nodeReset_effect {m : Manager ops} (ha : m.Books fenced calm unplaced freed) (id : Id) :
    OpEffect fenced calm m [] unplaced freed (m.nodeReset id) := by
  unfold Manager.nodeReset
  split
  · exact .refl ha
  · rename_i item hItem
    have ha₁ := ha.setBase hItem item.baseNode.reset_tokenInuse
    rw [show ({ item with baseNode := item.baseNode.reset } : DispatchNode Id) = item.reset
      from rfl, ← node?_setNode (h := m.groups) hItem] at ha₁
    exact ⟨ha₁, .refl ha.sound, rfl, rfl⟩

/-- A message, with the reset it may ask for. -/
theorem rcvd_effect {m m' : Manager ops} {dta : Dispatch2App} {callbacks : List Callback}
    (ha : m.Books fenced calm unplaced freed) (h : m.rcvd id dta = some (m', callbacks))
    (hVersion : fenced → m'.version ≤ 2 ^ 32) :
    OpEffect fenced calm m callbacks unplaced freed m' := by
  unfold Manager.rcvd at h
  split at h
  · obtain ⟨m₁, hm₁, heq⟩ := Option.map_eq_some_iff.mp h
    obtain ⟨rfl, rfl⟩ := Prod.mk.inj heq
    exact nodeOnline_effect ha hm₁ hVersion
  · rename_i item hItem
    have he := resourceChanged_effect [] ha hItem dta
    have hBooks := he.books hItem
    obtain ⟨settled, hGot, hSettles⟩ := he.settles
    rw [List.append_nil] at hGot
    rw [← hGot] at hSettles
    generalize item.resourceChanged m.groups dta [] = res at h hBooks hSettles
    obtain ⟨item', h', relative, isReset⟩ := res
    simp only at h hBooks hSettles
    obtain ⟨rfl, rfl⟩ := Prod.mk.inj (Option.some.inj h)
    have hFirst : OpEffect fenced calm m (endTokenGrps h' relative) unplaced freed
        (m.setNode id item' h') := ⟨hBooks, hSettles.delivers, rfl, rfl⟩
    cases isReset with
    | false => exact hFirst
    | true =>
      have hGroups : ((m.setNode id item' h').nodeReset id).groups = h' := by
        unfold Manager.nodeReset
        split <;> rfl
      simp only [if_true, hGroups]
      have := hFirst.trans (nodeReset_effect hBooks id)
      rwa [List.append_nil] at this

-- ---------------------------------------------------------------------------
-- Putting
-- ---------------------------------------------------------------------------

/-- The nodes that a put reports go offline one after the other. -/
theorem checkNodeOutWhenPut_effect (failRs : List (Resource Id)) {m : Manager ops}
    (ha : m.Books fenced calm [] freed) (hCalm : calm → failRs = []) :
    OpEffect fenced calm m (m.checkNodeOutWhenPut failRs).2 [] freed
      (m.checkNodeOutWhenPut failRs).1 := by
  induction failRs generalizing m with
  | nil => exact .refl ha
  | cons rs rest ih =>
    have hNot : ¬ calm := fun h => by cases hCalm h
    unfold Manager.checkNodeOutWhenPut
    split
    · have hOff := nodeOffline_effect ha hNot rs.id
      exact hOff.trans (ih hOff.books fun h => absurd h hNot)
    · exact ih ha fun h => absurd h hNot

/-- What a step of the put loop leaves behind: the groups settled on the way are
collected. -/
structure LoopEffect (fenced calm : Prop) (m : Manager ops) (relative : List GrpPtr)
    (freed : List ReqPtr) (m' : Manager ops) (relative' : List GrpPtr) : Prop where
  books    : m'.Books fenced calm [] freed
  settles  : ∃ settled, relative' = settled ++ relative ∧ Settles m.groups settled m'.groups

theorem tryToFreeToManager_caches (m : Manager ops) (r : TokenReq Id) (relative : List GrpPtr) :
    SameCaches m (m.tryToFreeToManager r relative).1 := by
  unfold Manager.tryToFreeToManager
  split
  · exact .refl m
  · exact ⟨rfl, rfl, rfl⟩

theorem tryToPutTokens_caches (ps : List ReqPtr) (m : Manager ops) (relative : List GrpPtr) :
    SameCaches m (m.tryToPutTokens relative ps).1 := by
  induction ps generalizing m relative with
  | nil => exact .refl m
  | cons p rest ih =>
    unfold Manager.tryToPutTokens
    split
    · split
      · exact (tryToFreeToManager_caches m _ relative).trans (ih _ _)
      · exact ih m relative
    · exact ih m relative

theorem nodeOffline_caches (m : Manager ops) (id : Id) : SameCaches m (m.nodeOffline id).1 := by
  unfold Manager.nodeOffline
  split
  · exact .refl m
  · exact ⟨rfl, rfl, rfl⟩

theorem checkNodeOutWhenPut_caches (failRs : List (Resource Id)) (m : Manager ops) :
    SameCaches m (m.checkNodeOutWhenPut failRs).1 := by
  induction failRs generalizing m with
  | nil => exact .refl m
  | cons rs rest ih =>
    unfold Manager.checkNodeOutWhenPut
    split
    · exact (nodeOffline_caches m rs.id).trans (ih _)
    · exact ih m

/-- One request gives its tokens back, which may serve the queue of its node. -/
theorem tryToFreeToManager_effect {m : Manager ops} (relative : List GrpPtr)
    (ha : m.Books fenced calm [] freed) (hr : r ∈ m.groups.reqs) (hGot : r.stat = .got)
    (hNew : r.ptr ∉ freed) :
    LoopEffect fenced calm m relative (r.ptr :: freed) (m.tryToFreeToManager r relative).1
      (m.tryToFreeToManager r relative).2 := by
  unfold Manager.tryToFreeToManager
  split
  · rename_i hNone
    refine ⟨ha.freeStale hr hGot fun nx hx => ?_, ⟨[], rfl, .refl ha.sound⟩⟩
    rw [hNone] at hx
    cases hx
  · rename_i item hItem
    have he := freeResource_effect relative ha hr hGot hNew hItem
    exact ⟨he.books hItem, he.settles⟩

/-- A put hands out no fence. -/
theorem putTokenGrp_version (m : Manager ops) (gid : GrpPtr) (failRs : Option (ResourceRing Id)) :
    (m.putTokenGrp gid failRs).1.version = m.version := by
  have hOut := checkNodeOutWhenPut_caches ((failRs.map ResourceRing.walk).getD []) m
  unfold Manager.putTokenGrp
  simp only
  split
  · exact hOut.version_eq
  · have hLoop := fun ps => tryToPutTokens_caches ps
      (m.checkNodeOutWhenPut ((failRs.map ResourceRing.walk).getD [])).1 []
    unfold Manager.freeGroup
    split
    · exact (hLoop _).version_eq.trans hOut.version_eq
    · exact (hLoop _).version_eq.trans hOut.version_eq

/-- The requests that count as freed once the put loop is through `rs`. -/
def freedAfter (freed : List ReqPtr) : List (TokenReq Id) → List ReqPtr
  | [] => freed
  | r :: rest => freedAfter (if r.stat = .got then r.ptr :: freed else freed) rest

/-- Only granted requests are freed. -/
theorem mem_freedAfter {p : ReqPtr} {rs : List (TokenReq Id)} :
    p ∈ freedAfter freed rs ↔ p ∈ freed ∨ ∃ r ∈ rs, r.stat = .got ∧ r.ptr = p := by
  induction rs generalizing freed with
  | nil => simp [freedAfter]
  | cons r rest ih =>
    unfold freedAfter
    rw [ih]
    by_cases hGot : r.stat = .got
    · simp only [hGot, if_true, List.mem_cons, exists_eq_or_imp, true_and, or_assoc]
      rw [or_left_comm, eq_comm (a := p)]
    · simp [hGot]

/-- **The put loop.** What holds before it, while its group is there to be
walked, and is kept by each request given back, holds after it. -/
theorem tryToPutTokens_rule {g : TokenReqgrp Id}
    {P : Manager ops → List GrpPtr → List ReqPtr → Prop}
    (hLive : ∀ m relative freed, P m relative freed →
      m.groups.Sound ∧ group? m.groups g.gid = some g)
    (hStep : ∀ m relative freed r, P m relative freed → r ∈ g.lheadReqgrp → r.stat = .got →
      r.ptr ∉ freed → P (m.tryToFreeToManager r relative).1 (m.tryToFreeToManager r relative).2
        (r.ptr :: freed))
    (rs : List (TokenReq Id)) (hMem : ∀ r ∈ rs, r ∈ g.lheadReqgrp)
    (hNodup : (rs.map TokenReq.ptr).Nodup) (m : Manager ops) (relative : List GrpPtr)
    (freed : List ReqPtr) (hNew : ∀ r ∈ rs, r.ptr ∉ freed) (hP : P m relative freed) :
    P (m.tryToPutTokens relative (rs.map TokenReq.ptr)).1
      (m.tryToPutTokens relative (rs.map TokenReq.ptr)).2 (freedAfter freed rs) := by
  induction rs generalizing m relative freed with
  | nil => exact hP
  | cons r rest ih =>
    rw [List.map_cons, List.nodup_cons] at hNodup
    have hrg := hMem r List.mem_cons_self
    obtain ⟨hs, hg⟩ := hLive m relative freed hP
    have hr : r ∈ m.groups.reqs := mem_reqs.mpr ⟨g, mem_of_lookup hg, hrg⟩
    have hMemRest : ∀ r ∈ rest, r ∈ g.lheadReqgrp := fun r hr => hMem r (List.mem_cons_of_mem _ hr)
    have hNewRest : ∀ x ∈ rest, x.ptr ∉ freed := fun x hx => hNew x (List.mem_cons_of_mem _ hx)
    unfold Manager.tryToPutTokens freedAfter
    rw [List.map_cons]
    simp only [hs.request?_of_mem hr]
    by_cases hGot : r.stat = .got
    · rw [if_pos hGot, if_pos hGot]
      refine ih hMemRest hNodup.2 _ _ _ (fun x hx hp => ?_)
        (hStep m relative freed r hP hrg hGot (hNew r List.mem_cons_self))
      rcases List.mem_cons.mp hp with hp | hp
      · exact hNodup.1 (hp ▸ List.mem_map_of_mem hx)
      · exact hNewRest x hx hp
    · rw [if_neg hGot, if_neg hGot]
      exact ih hMemRest hNodup.2 m relative freed hNewRest hP

/-- The put loop over a settled group `g`. -/
theorem tryToPutTokens_effect {m : Manager ops} {g : TokenReqgrp Id} (hz : g.initNr = 0)
    (ha : m.Books fenced calm [] []) (hg : group? m.groups g.gid = some g) :
    LoopEffect fenced calm m [] (freedAfter [] g.lheadReqgrp)
      (m.tryToPutTokens [] (g.lheadReqgrp.map TokenReq.ptr)).1
      (m.tryToPutTokens [] (g.lheadReqgrp.map TokenReq.ptr)).2 := by
  have hSettled := fun {m' relative freed} (he : LoopEffect fenced calm m [] freed m' relative) =>
    he.settles.choose_spec.2.kept g.gid g hg hz
  refine tryToPutTokens_rule (P := fun m' relative freed => LoopEffect fenced calm m [] freed m' relative)
    (fun m' relative freed he => ⟨he.books.sound, hSettled he⟩)
    (fun m' relative freed r he hr hGot hNew => ?_) g.lheadReqgrp (fun _ hr => hr)
    (ha.sound.group g (mem_of_lookup hg)).nodup_ptr m [] [] (by simp)
    ⟨ha, [], rfl, .refl ha.sound⟩
  have hrm : r ∈ m'.groups.reqs := mem_reqs.mpr ⟨g, mem_of_lookup (hSettled he), hr⟩
  have hStep := tryToFreeToManager_effect relative he.books hrm hGot hNew
  obtain ⟨settled, hRel, hSettles⟩ := he.settles
  obtain ⟨settled', hRel', hSettles'⟩ := hStep.settles
  refine ⟨hStep.books, settled' ++ settled, ?_, hSettles.trans hSettles'⟩
  rw [hRel', hRel, List.append_assoc]

/-- What a put of the settled group `g` leaves behind: up to memory `h` groups
were settled and called back, and then `g` was dropped. -/
structure PutEffect (fenced calm : Prop) (m : Manager ops) (g : TokenReqgrp Id)
    (callbacks : List Callback) (h : GrpHeap Id) (m' : Manager ops) : Prop where
  books    : m'.Books fenced calm [] []
  delivers : Delivers m.groups callbacks h
  kept     : group? h g.gid = some g
  groups   : m'.groups = erase TokenReqgrp.gid g.gid h
  freed_eq : m'.freed = g :: m.freed
  nextGrp_eq : m'.nextGrp = m.nextGrp

/-- **A put** frees every granted request of its group, and settles what that
serves. -/
theorem putTokenGrp_effect {m : Manager ops} (ha : m.Books fenced calm [] []) {g : TokenReqgrp Id}
    (hg : group? m.groups g.gid = some g) (hz : g.initNr = 0) (failRs : Option (ResourceRing Id))
    (hCalm : calm → failRs = none) :
    ∃ h, PutEffect fenced calm m g (m.putTokenGrp g.gid failRs).2 h (m.putTokenGrp g.gid failRs).1 := by
  unfold Manager.putTokenGrp
  have hOut := checkNodeOutWhenPut_effect ((failRs.map ResourceRing.walk).getD []) ha
    fun h => by rw [hCalm h]; rfl
  generalize m.checkNodeOutWhenPut ((failRs.map ResourceRing.walk).getD []) = res at hOut ⊢
  obtain ⟨m₁, callbacks⟩ := res
  simp only at hOut ⊢
  have hg₁ := hOut.delivers.kept g.gid g hg hz
  rw [hg₁]
  simp only
  have hSound := hOut.books.sound.group g (mem_of_lookup hg₁)
  have hLoop := tryToPutTokens_effect hz hOut.books hg₁
  have hCaches := tryToPutTokens_caches (g.lheadReqgrp.map TokenReq.ptr) m₁ []
  generalize m₁.tryToPutTokens [] (g.lheadReqgrp.map TokenReq.ptr) = res at hLoop hCaches ⊢
  obtain ⟨m₂, relative⟩ := res
  simp only at hLoop hCaches ⊢
  obtain ⟨settled, hRel, hSettles⟩ := hLoop.settles
  rw [List.append_nil] at hRel
  subst hRel
  have hg₂ := hSettles.kept g.gid g hg₁ hz
  -- the requests of the group are the ones of its record
  have hMine : ∀ r ∈ m₂.groups.reqs, r.tokenGrp = g.gid → r ∈ g.lheadReqgrp := by
    intro r hr hgrp
    obtain ⟨g', hg', hrg⟩ := hLoop.books.sound.group?_of_mem hr
    rw [hgrp, hg₂] at hg'
    obtain rfl := Option.some.inj hg'
    exact mem_of_lookup hrg
  refine ⟨m₂.groups, ?_, hOut.delivers.trans hSettles.delivers, hg₂, ?_, ?_, ?_⟩
  · have hDrop := hLoop.books.dropGroup g.gid
      (fun r hr hgrp hInit => by
        have := List.countP_eq_zero.mp hz r (hMine r hr hgrp)
        simp [hInit] at this)
      (fun r hr hGot => by
        rw [mem_freedAfter]
        constructor
        · rintro (hp | ⟨x, hx, -, hp⟩)
          · simp at hp
          · rw [← hSound.owner x hx]
            exact (congrArg ReqPtr.grp hp).symm
        · exact fun hgrp => Or.inr ⟨r, hMine r hr hgrp, hGot, rfl⟩)
    unfold Manager.freeGroup
    rw [hg₂]
    exact hDrop
  · unfold Manager.freeGroup
    rw [hg₂]
  · unfold Manager.freeGroup
    rw [hg₂]
    simp only [hCaches.freed_eq, hOut.freed_eq]
  · unfold Manager.freeGroup
    rw [hg₂]
    simp only [hCaches.nextGrp_eq, hOut.nextGrp_eq]

end DatastorQos
