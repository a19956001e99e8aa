import DatastorQos.App.Delivery

/-!
# datastor_qos — the books of the app side

What ties the four structures of a manager together: the counters and queues of
the nodes, the states of the requests, the counters of the groups. `Accounts`
holds between the steps of an operation, not only between operations. For that
it knows two kinds of requests that are in between: `unplaced` ones are in
`init` but in no queue (not asked for yet, or just taken off one), and `freed`
ones are `got` but their tokens are back with the node.

A fence is an `int`, and after `2 ^ 32` nodes it is handed out again. What
depends on fences being distinct is asked for only where `fenced` says they
are. The counters also balance where no node ever goes offline, which `calm`
says; the queues and the group counters depend on neither.

Each step of an operation has one lemma here; `ManagerBooks` and `GetBooks`
string them together along the loops of the source.
-/

namespace DatastorQos

open Keyed GrpHeap

variable {Id : Type} {ops : IdOps Id}

-- ---------------------------------------------------------------------------
-- Requests
-- ---------------------------------------------------------------------------

/-- What a request holds of the tokens of the node of this id and fence. -/
def creditOf (ops : IdOps Id) (id : Id) (fence : BitVec 32) (freed : List ReqPtr)
    (r : TokenReq Id) : ULong :=
  if r.stat = .got ∧ r.nodeid = fence ∧ ops.Same id r.tokenNeed.id ∧ r.ptr ∉ freed then
    r.tokenNeed.cost
  else 0

/-- What all requests together hold of the tokens of the node of this id and
fence, as `unsigned long` adds it up. -/
def gotSum (ops : IdOps Id) (h : GrpHeap Id) (id : Id) (fence : BitVec 32)
    (freed : List ReqPtr) : ULong :=
  (h.reqs.map (creditOf ops id fence freed)).sum

/-- The request waits for the node of this id. -/
structure Waits (ops : IdOps Id) (h : GrpHeap Id) (unplaced : List ReqPtr) (id : Id)
    (r : TokenReq Id) : Prop where
  mem    : r ∈ h.reqs
  stat   : r.stat = .init
  same   : ops.Same id r.tokenNeed.id
  placed : r.ptr ∉ unplaced

/-- From memory `h` to memory `h'` request `r` became `r'`, and no other
changed. -/
structure Rewrites (h : GrpHeap Id) (r r' : TokenReq Id) (h' : GrpHeap Id) : Prop where
  sound   : h.Sound
  sound'  : h'.Sound
  mem     : r ∈ h.reqs
  ptr_eq  : r'.ptr = r.ptr
  need_eq : r'.tokenNeed = r.tokenNeed
  reqs_eq : h'.reqs = modify TokenReq.ptr r.ptr (fun _ => r') h.reqs

namespace Rewrites

variable {h h' : GrpHeap Id} {r r' x : TokenReq Id}

theorem of_modify (hs : h.Sound) (hs' : h'.Sound) (hr : r ∈ h.reqs) {f : TokenReq Id → TokenReq Id}
    (hPtr : (f r).ptr = r.ptr) (hNeed : (f r).tokenNeed = r.tokenNeed)
    (heq : h'.reqs = modify TokenReq.ptr r.ptr f h.reqs) : Rewrites h r (f r) h' where
  sound   := hs
  sound'  := hs'
  mem     := hr
  ptr_eq  := hPtr
  need_eq := hNeed
  reqs_eq := by
    rw [heq]
    refine List.map_congr_left fun x hx => ?_
    by_cases hp : x.ptr = r.ptr
    · rw [hs.eq_of_ptr_eq hx hr hp]
    · simp [hp]

theorem mem_iff (hw : Rewrites h r r' h') :
    x ∈ h'.reqs ↔ (x ∈ h.reqs ∧ x.ptr ≠ r.ptr) ∨ x = r' := by
  rw [hw.reqs_eq, mem_modify]
  constructor
  · rintro (hx | ⟨_, -, -, rfl⟩)
    · exact Or.inl hx
    · exact Or.inr rfl
  · rintro (hx | rfl)
    · exact Or.inl hx
    · exact Or.inr ⟨r, hw.mem, rfl, rfl⟩

theorem trans {h₁ : GrpHeap Id} {r₁ : TokenReq Id} (a : Rewrites h r r₁ h₁)
    (b : Rewrites h₁ r₁ r' h') : Rewrites h r r' h' where
  sound   := a.sound
  sound'  := b.sound'
  mem     := a.mem
  ptr_eq  := b.ptr_eq.trans a.ptr_eq
  need_eq := b.need_eq.trans a.need_eq
  reqs_eq := by
    rw [b.reqs_eq, a.reqs_eq, a.ptr_eq]
    unfold Keyed.modify
    rw [List.map_map]
    refine List.map_congr_left fun x _ => ?_
    by_cases hp : x.ptr = r.ptr <;> simp [hp, a.ptr_eq]

theorem gotSum_add (hw : Rewrites h r r' h') (ops : IdOps Id) (id : Id) (fence : BitVec 32)
    (freed : List ReqPtr) :
    gotSum ops h' id fence freed + creditOf ops id fence freed r =
      gotSum ops h id fence freed + creditOf ops id fence freed r' := by
  unfold gotSum
  rw [hw.reqs_eq]
  exact sum_modify (f := fun _ => r') hw.sound.distinct_reqs
    (lookup_of_mem hw.sound.distinct_reqs hw.mem)

end Rewrites

theorem GrpHeap.Resolved.rewrites {h h' : GrpHeap Id} {r : TokenReq Id} {s : AppTokenStat}
    {err : QosError} (hs : h.Sound) (hr : r ∈ h.reqs) (hRes : GrpHeap.Resolved h r.ptr s h' err) :
    Rewrites h r { r with stat := s } h' :=
  .of_modify (f := fun r => { r with stat := s }) hs hRes.sound hr rfl rfl hRes.reqs_eq

theorem GrpHeap.Sound.rewrites_setNodeid {h : GrpHeap Id} {r : TokenReq Id} (hs : h.Sound)
    (hr : r ∈ h.reqs) (nodeid : BitVec 32) :
    Rewrites h r { r with nodeid := nodeid } (h.setNodeid r.ptr nodeid) :=
  .of_modify (f := fun r => { r with nodeid := nodeid }) hs (hs.setNodeid _ _).1 hr rfl rfl
    (hs.setNodeid _ _).2

-- ---------------------------------------------------------------------------
-- One node
-- ---------------------------------------------------------------------------

/-- The books of the online node of an id. -/
structure NodeAccounts (ops : IdOps Id) (fenced calm : Prop) (h : GrpHeap Id)
    (unplaced freed : List ReqPtr) (id : Id) (n : DispatchNode Id) : Prop where
  /-- what is in use is what got requests of this incarnation hold -/
  inuse  : fenced ∨ calm → n.baseNode.tokenInuse = gotSum ops h id n.fenceId freed
  press  : n.lheadNodereq.PressEq
  /-- the queue holds each waiting request once, and nothing else -/
  nodup  : (n.lheadNodereq.tokenList.map ResourceList.owner).Nodup
  queued : ∀ rs, rs ∈ n.lheadNodereq.tokenList ↔ ∃ r, Waits ops h unplaced id r ∧ r.needList = rs
  /-- a waiting request asked this incarnation -/
  fence  : ∀ r, Waits ops h unplaced id r → r.nodeid = n.fenceId
  got_id : fenced → ∀ r ∈ h.reqs, r.stat = .got → r.nodeid = n.fenceId →
    ops.Same id r.tokenNeed.id

namespace NodeAccounts

variable {fenced calm : Prop} {h h' : GrpHeap Id} {unplaced unplaced' freed : List ReqPtr}
  {id id' : Id} {n : DispatchNode Id} {r r' : TokenReq Id}

theorem waits_congr (hs : ops.Same id id') :
    Waits ops h unplaced id r ↔ Waits ops h unplaced id' r :=
  ⟨fun w => ⟨w.mem, w.stat, hs.symm.trans w.same, w.placed⟩,
    fun w => ⟨w.mem, w.stat, hs.trans w.same, w.placed⟩⟩

theorem congr (hn : NodeAccounts ops fenced calm h unplaced freed id n) (hs : ops.Same id id') :
    NodeAccounts ops fenced calm h unplaced freed id' n where
  inuse  := by
    intro hc
    rw [hn.inuse hc]
    unfold gotSum creditOf
    simp only [hs.congr_left]
  press  := hn.press
  nodup  := hn.nodup
  queued := by
    intro rs
    simp only [hn.queued, waits_congr hs]
  fence  := fun r hr => hn.fence r ((waits_congr hs).mpr hr)
  got_id := fun hFenced r hr hGot hNodeid => hs.symm.trans (hn.got_id hFenced r hr hGot hNodeid)

/-- The books of a node that a change of one request does not concern: the
request names another node, or is unplaced before and not waiting after. -/
theorem of_rewrites (hn : NodeAccounts ops fenced calm h unplaced freed id n) (hw : Rewrites h r r' h')
    (hInit : r.stat = .init) (hGot : ¬ (r'.stat = .got ∧ ops.Same id r.tokenNeed.id))
    (hFence : fenced → ¬ (r'.stat = .got ∧ r'.nodeid = n.fenceId))
    (hUnplaced : ∀ p, p ≠ r.ptr → (p ∈ unplaced' ↔ p ∈ unplaced))
    (hQuiet : ¬ ops.Same id r.tokenNeed.id ∨
      r.ptr ∈ unplaced ∧ (r'.stat ≠ .init ∨ r.ptr ∈ unplaced')) :
    NodeAccounts ops fenced calm h' unplaced' freed id n := by
  have hWaits : ∀ x, Waits ops h' unplaced' id x ↔ Waits ops h unplaced id x := by
    intro x
    constructor
    · rintro ⟨hx, hStat, hSame, hPlaced⟩
      rcases hw.mem_iff.mp hx with ⟨hx, hne⟩ | rfl
      · exact ⟨hx, hStat, hSame, fun hp => hPlaced ((hUnplaced _ hne).mpr hp)⟩
      · rw [hw.need_eq] at hSame
        rw [hw.ptr_eq] at hPlaced
        rcases hQuiet with hNot | ⟨-, hNot | hp⟩
        · exact absurd hSame hNot
        · exact absurd hStat hNot
        · exact absurd hp hPlaced
    · rintro ⟨hx, hStat, hSame, hPlaced⟩
      have hne : x.ptr ≠ r.ptr := by
        intro hp
        obtain rfl := hw.sound.eq_of_ptr_eq hx hw.mem hp
        rcases hQuiet with hNot | ⟨hp, -⟩
        · exact hNot hSame
        · exact hPlaced hp
      exact ⟨hw.mem_iff.mpr (Or.inl ⟨hx, hne⟩), hStat, hSame,
        fun hp => hPlaced ((hUnplaced _ hne).mp hp)⟩
  refine ⟨?_, hn.press, hn.nodup, ?_, ?_, ?_⟩
  · intro hc
    have hSum := hw.gotSum_add ops id n.fenceId freed
    have hOld : creditOf ops id n.fenceId freed r = 0 := by simp [creditOf, hInit]
    have hNew : creditOf ops id n.fenceId freed r' = 0 :=
      if_neg fun hc => hGot ⟨hc.1, hw.need_eq ▸ hc.2.2.1⟩
    rw [hOld, hNew, add_zero, add_zero] at hSum
    rw [hn.inuse hc, hSum]
  · intro rs
    simp only [hn.queued, hWaits]
  · exact fun x hx => hn.fence x ((hWaits x).mp hx)
  · intro hFenced x hx hStat hNodeid
    rcases hw.mem_iff.mp hx with ⟨hx, -⟩ | rfl
    · exact hn.got_id hFenced x hx hStat hNodeid
    · exact absurd ⟨hStat, hNodeid⟩ (hFence hFenced)

/-- The books of the node that grants `r`; `tokens` is its queue without `r`. -/
theorem grant (hn : NodeAccounts ops fenced calm h unplaced freed id n)
    (hw : Rewrites h r { r with stat := .got } h') (hInit : r.stat = .init)
    (hSame : ops.Same id r.tokenNeed.id) (hFence : r.nodeid = n.fenceId) (hFreed : r.ptr ∉ freed)
    (hFits : n.baseNode.Fits r.tokenNeed.cost) {tokens : NodereqList Id} (hPress : tokens.PressEq)
    (hNodup : (tokens.tokenList.map ResourceList.owner).Nodup)
    (hUnplaced : ∀ p, p ≠ r.ptr → (p ∈ unplaced' ↔ p ∈ unplaced))
    (hQueue : ∀ rs, rs ∈ tokens.tokenList ↔
      ∃ x, Waits ops h unplaced id x ∧ x.ptr ≠ r.ptr ∧ x.needList = rs) :
    NodeAccounts ops fenced calm h' unplaced' freed id
      { n with baseNode := n.baseNode.chargeSection r.tokenNeed.cost, lheadNodereq := tokens } := by
  have hWaits : ∀ x, Waits ops h' unplaced' id x ↔ Waits ops h unplaced id x ∧ x.ptr ≠ r.ptr := by
    intro x
    constructor
    · rintro ⟨hx, hStat, hSame, hPlaced⟩
      rcases hw.mem_iff.mp hx with ⟨hx, hne⟩ | rfl
      · exact ⟨⟨hx, hStat, hSame, fun hp => hPlaced ((hUnplaced _ hne).mpr hp)⟩, hne⟩
      · cases hStat
    · rintro ⟨⟨hx, hStat, hSame, hPlaced⟩, hne⟩
      exact ⟨hw.mem_iff.mpr (Or.inl ⟨hx, hne⟩), hStat, hSame,
        fun hp => hPlaced ((hUnplaced _ hne).mp hp)⟩
  refine ⟨?_, hPress, hNodup, ?_, ?_, ?_⟩
  · intro hc
    have hSum := hw.gotSum_add ops id n.fenceId freed
    have hOld : creditOf ops id n.fenceId freed r = 0 := by simp [creditOf, hInit]
    have hNew : creditOf ops id n.fenceId freed { r with stat := .got } = r.tokenNeed.cost :=
      if_pos ⟨rfl, hFence, hSame, hFreed⟩
    rw [hOld, hNew, add_zero] at hSum
    rw [DispatchBaseNode.chargeSection_tokenInuse hFits, hn.inuse hc, hSum]
  · intro rs
    simp only [hQueue, hWaits, and_assoc]
  · exact fun x hx => hn.fence x ((hWaits x).mp hx).1
  · intro hFenced x hx hStat hNodeid
    rcases hw.mem_iff.mp hx with ⟨hx, -⟩ | rfl
    · exact hn.got_id hFenced x hx hStat hNodeid
    · exact hSame

/-- A new node has lent nothing, where no request got tokens of its fence, and none
waits for its id. -/
theorem init {fence : BitVec 32}
    (hGot : fenced ∨ calm → ∀ r ∈ h.reqs, r.stat = .got → ops.Same id r.tokenNeed.id →
      r.nodeid ≠ fence)
    (hNobody : fenced → ∀ r ∈ h.reqs, r.stat = .got → r.nodeid ≠ fence)
    (hNoWait : ∀ r, ¬ Waits ops h unplaced id r) :
    NodeAccounts ops fenced calm h unplaced freed id (.init fence) where
  inuse  := by
    intro hc
    have hZero : ∀ r ∈ h.reqs, creditOf ops id fence freed r = 0 :=
      fun r hr => if_neg fun hHolds => hGot hc r hr hHolds.1 hHolds.2.2.1 hHolds.2.1
    show (0 : ULong) = gotSum ops h id fence freed
    rw [gotSum, List.sum_eq_zero]
    intro c hMem
    obtain ⟨r, hr, rfl⟩ := List.mem_map.mp hMem
    exact hZero r hr
  press  := NodereqList.pressEq_init
  nodup  := List.nodup_nil
  queued := by
    intro rs
    simp [DispatchNode.init, hNoWait]
  fence  := fun r hr => absurd hr (hNoWait r)
  got_id := fun hFenced r hr hStat hNodeid => absurd hNodeid (hNobody hFenced r hr hStat)

end NodeAccounts

-- ---------------------------------------------------------------------------
-- All nodes
-- ---------------------------------------------------------------------------

/-- The online nodes, with the node of `id` replaced. -/
def setAt (ops : IdOps Id) (look : Id → Option (DispatchNode Id)) (id : Id) (n : DispatchNode Id) :
    Id → Option (DispatchNode Id) :=
  fun x => if ops.Same id x then some n else look x

section SetAt

variable {look : Id → Option (DispatchNode Id)} {id x a b : Id} {n nx : DispatchNode Id}

theorem setAt_of_same (hSame : ops.Same id x) : setAt ops look id n x = some n := if_pos hSame

theorem setAt_of_not_same (hNot : ¬ ops.Same id x) : setAt ops look id n x = look x := if_neg hNot

theorem setAt_self (look : Id → Option (DispatchNode Id)) (id : Id) (n : DispatchNode Id) :
    setAt ops look id n id = some n := setAt_of_same (ops.same_refl id)

/-- A node is the one that was put there, or was there before. -/
theorem setAt_cases (hx : setAt ops look id n x = some nx) :
    ops.Same id x ∧ nx = n ∨ ¬ ops.Same id x ∧ look x = some nx := by
  by_cases hSame : ops.Same id x
  · rw [setAt_of_same hSame] at hx
    exact Or.inl ⟨hSame, (Option.some.inj hx).symm⟩
  · rw [setAt_of_not_same hSame] at hx
    exact Or.inr ⟨hSame, hx⟩

theorem setAt_setAt (look : Id → Option (DispatchNode Id)) (id : Id) (n n' : DispatchNode Id) :
    setAt ops (setAt ops look id n) id n' = setAt ops look id n' := by
  funext x
  unfold setAt
  split <;> rfl

theorem setAt_congr (hCongr : ∀ a b, ops.Same a b → look a = look b) (hSame : ops.Same a b) :
    setAt ops look id n a = setAt ops look id n b :=
  hSame.ite_congr (hCongr a b hSame)

/-- What is there is put there again. -/
theorem setAt_of_look (hCongr : ∀ a b, ops.Same a b → look a = look b) (hn : look id = some n) :
    setAt ops look id n = look := by
  funext x
  unfold setAt
  split
  · rename_i hSame
    rw [← hCongr id x hSame, hn]
  · rfl

end SetAt

/-- **The books.** `look` gives the online nodes, `version` counts the fences
handed out. -/
structure Accounts (ops : IdOps Id) (fenced calm : Prop) (look : Id → Option (DispatchNode Id))
    (version : Nat) (h : GrpHeap Id) (unplaced freed : List ReqPtr) : Prop where
  sound     : h.Sound
  congr     : ∀ a b, ops.Same a b → look a = look b
  /-- every fence in use was handed out, and to one node -/
  fence_lt  : ∀ id n, look id = some n → ∃ k < version, n.fenceId = BitVec.ofNat 32 k
  fence_inj : fenced → ∀ id id' n n', look id = some n → look id' = some n' →
    n.fenceId = n'.fenceId → ops.Same id id'
  got_lt    : ∀ r ∈ h.reqs, r.stat = .got → ∃ k < version, r.nodeid = BitVec.ofNat 32 k
  unplaced_nodup : unplaced.Nodup
  freed_got : ∀ r ∈ h.reqs, r.ptr ∈ freed → r.stat = .got
  /-- no node that granted anything went offline since -/
  home      : calm → ∀ r ∈ h.reqs, r.stat = .got →
    ∃ n, look r.tokenNeed.id = some n ∧ r.nodeid = n.fenceId
  /-- a waiting request waits for a node that is online -/
  waiting   : ∀ r ∈ h.reqs, r.stat = .init → r.ptr ∉ unplaced →
    ∃ n, look r.tokenNeed.id = some n
  node      : ∀ id n, look id = some n → NodeAccounts ops fenced calm h unplaced freed id n

namespace Accounts

variable {fenced calm : Prop} {look : Id → Option (DispatchNode Id)} {version : Nat}
  {h h' : GrpHeap Id}
  {unplaced unplaced' freed freed' : List ReqPtr} {id : Id} {n : DispatchNode Id}
  {r : TokenReq Id}

/-- A request that is not yet freed, being in `init`. -/
theorem not_freed (ha : Accounts ops fenced calm look version h unplaced freed) (hr : r ∈ h.reqs)
    (hInit : r.stat = .init) : r.ptr ∉ freed := by
  intro hp
  have := ha.freed_got r hr hp
  rw [hInit] at this
  cases this

/-- The node of an id changes, keeping its fence: what remains to be shown is
its own books, and those of the others under the new memory. -/
theorem of_setAt (ha : Accounts ops fenced calm look version h unplaced freed) {n' : DispatchNode Id}
    (hn : look id = some n) (hFence : n'.fenceId = n.fenceId) (hs : h'.Sound)
    (hGot : ∀ r ∈ h'.reqs, r.stat = .got → ∃ k < version, r.nodeid = BitVec.ofNat 32 k)
    (hHome : calm → ∀ r ∈ h'.reqs, r.stat = .got →
      ∃ n, look r.tokenNeed.id = some n ∧ r.nodeid = n.fenceId)
    (hNodup : unplaced'.Nodup)
    (hFreed : ∀ r ∈ h'.reqs, r.ptr ∈ freed' → r.stat = .got)
    (hWaiting : ∀ r ∈ h'.reqs, r.stat = .init → r.ptr ∉ unplaced' →
      ∃ n, look r.tokenNeed.id = some n)
    (hSelf : NodeAccounts ops fenced calm h' unplaced' freed' id n')
    (hOther : ∀ x nx, ¬ ops.Same id x → look x = some nx → (fenced → nx.fenceId ≠ n.fenceId) →
      NodeAccounts ops fenced calm h' unplaced' freed' x nx) :
    Accounts ops fenced calm (setAt ops look id n') version h' unplaced' freed' := by
  -- the id of a node under the new table, and its fence under the old one
  have hOld : ∀ x nx, setAt ops look id n' x = some nx →
      ∃ n₀, look x = some n₀ ∧ nx.fenceId = n₀.fenceId := by
    intro x nx hx
    rcases setAt_cases hx with ⟨hSame, rfl⟩ | ⟨-, hx⟩
    · exact ⟨n, by rw [← ha.congr id x hSame, hn], hFence⟩
    · exact ⟨nx, hx, rfl⟩
  have hStays : ∀ x nx, look x = some nx →
      ∃ n₁, setAt ops look id n' x = some n₁ ∧ n₁.fenceId = nx.fenceId := by
    intro x nx hx
    by_cases hSame : ops.Same id x
    · rw [← ha.congr _ _ hSame, hn] at hx
      exact ⟨n', setAt_of_same hSame, hFence.trans (congrArg _ (Option.some.inj hx))⟩
    · exact ⟨nx, (setAt_of_not_same hSame).trans hx, rfl⟩
  refine ⟨hs, fun a b => setAt_congr ha.congr, ?_, ?_, hGot, hNodup, hFreed, ?_, ?_, ?_⟩
  · intro x nx hx
    obtain ⟨n₀, hn₀, heq⟩ := hOld x nx hx
    rw [heq]
    exact ha.fence_lt x n₀ hn₀
  · intro hFenced x y nx ny hx hy heq
    obtain ⟨n₀, hn₀, heq₀⟩ := hOld x nx hx
    obtain ⟨n₁, hn₁, heq₁⟩ := hOld y ny hy
    exact ha.fence_inj hFenced x y n₀ n₁ hn₀ hn₁ (heq₀ ▸ heq₁ ▸ heq)
  · intro hCalm r hr hStat
    obtain ⟨nx, hx, heq⟩ := hHome hCalm r hr hStat
    obtain ⟨n₁, hn₁, hSame⟩ := hStays _ nx hx
    exact ⟨n₁, hn₁, heq.trans hSame.symm⟩
  · intro r hr hInit hPlaced
    obtain ⟨nx, hx⟩ := hWaiting r hr hInit hPlaced
    obtain ⟨n₁, hn₁, -⟩ := hStays _ nx hx
    exact ⟨n₁, hn₁⟩
  · intro x nx hx
    rcases setAt_cases hx with ⟨hSame, rfl⟩ | ⟨hSame, hx⟩
    · exact hSelf.congr hSame
    · refine hOther x nx hSame hx fun hFenced heq => hSame ?_
      exact ha.fence_inj hFenced id x n nx hn hx heq.symm

-- ---------------------------------------------------------------------------
-- Steps on one request
-- ---------------------------------------------------------------------------

/-- A change of an unplaced request that leaves it unplaced or takes it out of
`init`, granting nothing. -/
theorem of_rewrites {r' : TokenReq Id} (ha : Accounts ops fenced calm look version h unplaced freed)
    (hw : Rewrites h r r' h') (hInit : r.stat = .init) (hGot : r'.stat ≠ .got)
    (hIn : r.ptr ∈ unplaced) (hOut : r'.stat ≠ .init ∨ r.ptr ∈ unplaced')
    (hNodup : unplaced'.Nodup) (hUnplaced : ∀ p, p ≠ r.ptr → (p ∈ unplaced' ↔ p ∈ unplaced)) :
    Accounts ops fenced calm look version h' unplaced' freed where
  sound     := hw.sound'
  congr     := ha.congr
  fence_lt  := ha.fence_lt
  fence_inj := ha.fence_inj
  got_lt    := by
    intro x hx hStat
    rcases hw.mem_iff.mp hx with ⟨hx, -⟩ | rfl
    · exact ha.got_lt x hx hStat
    · exact absurd hStat hGot
  unplaced_nodup := hNodup
  freed_got := by
    intro x hx hp
    rcases hw.mem_iff.mp hx with ⟨hx, -⟩ | rfl
    · exact ha.freed_got x hx hp
    · rw [hw.ptr_eq] at hp
      exact absurd hp (ha.not_freed hw.mem hInit)
  home      := by
    intro hCalm x hx hStat
    rcases hw.mem_iff.mp hx with ⟨hx, -⟩ | rfl
    · exact ha.home hCalm x hx hStat
    · exact absurd hStat hGot
  waiting   := by
    intro x hx hStat hPlaced
    rcases hw.mem_iff.mp hx with ⟨hx, hne⟩ | rfl
    · exact ha.waiting x hx hStat fun hp => hPlaced ((hUnplaced _ hne).mpr hp)
    · rw [hw.ptr_eq] at hPlaced
      rcases hOut with hOut | hOut
      · exact absurd hStat hOut
      · exact absurd hOut hPlaced
  node      := fun x nx hx =>
    (ha.node x nx hx).of_rewrites hw hInit (fun hc => hGot hc.1) (fun _ hc => hGot hc.1) hUnplaced
      (Or.inr ⟨hIn, hOut⟩)

/-- `rip->Nodeid = item->fence_id`, before the request is placed. -/
theorem setNodeid (ha : Accounts ops fenced calm look version h unplaced freed) (hr : r ∈ h.reqs)
    (hInit : r.stat = .init) (hIn : r.ptr ∈ unplaced) (nodeid : BitVec 32) :
    Accounts ops fenced calm look version (h.setNodeid r.ptr nodeid) unplaced freed :=
  ha.of_rewrites (ha.sound.rewrites_setNodeid hr nodeid) hInit (by simp [hInit]) hIn (Or.inr hIn)
    ha.unplaced_nodup fun _ _ => Iff.rfl

theorem mem_cons_iff_of_ne {p q : ReqPtr} (hne : p ≠ q) : p ∈ unplaced ↔ p ∈ q :: unplaced := by
  simp [hne]

/-- An unplaced request fails. -/
theorem fail (ha : Accounts ops fenced calm look version h (r.ptr :: unplaced) freed) (hr : r ∈ h.reqs)
    (hInit : r.stat = .init) :
    Accounts ops fenced calm look version (h.toFailed r.ptr).1 unplaced freed :=
  ha.of_rewrites ((ha.sound.toFailed hr hInit).rewrites ha.sound hr) hInit (by simp)
    List.mem_cons_self (Or.inl (by simp)) (List.nodup_cons.mp ha.unplaced_nodup).2
    fun _ => mem_cons_iff_of_ne

/-- The node of `id` grants `r`; `tokens` is its queue without `r`. -/
theorem grant (ha : Accounts ops fenced calm look version h unplaced freed) (hr : r ∈ h.reqs)
    (hInit : r.stat = .init) (hn : look id = some n) (hSame : ops.Same id r.tokenNeed.id)
    (hFence : r.nodeid = n.fenceId) (hFits : n.baseNode.Fits r.tokenNeed.cost)
    {tokens : NodereqList Id} (hPress : tokens.PressEq)
    (hQueueNodup : (tokens.tokenList.map ResourceList.owner).Nodup) (hNodup : unplaced'.Nodup)
    (hUnplaced : ∀ p, p ≠ r.ptr → (p ∈ unplaced' ↔ p ∈ unplaced))
    (hQueue : ∀ rs, rs ∈ tokens.tokenList ↔
      ∃ x, Waits ops h unplaced id x ∧ x.ptr ≠ r.ptr ∧ x.needList = rs) :
    Accounts ops fenced calm
      (setAt ops look id
        { n with baseNode := n.baseNode.chargeSection r.tokenNeed.cost, lheadNodereq := tokens })
      version (h.toGot r.ptr).1 unplaced' freed := by
  have hw := (ha.sound.toGot hr hInit).rewrites ha.sound hr
  have hFreed := ha.not_freed hr hInit
  refine ha.of_setAt hn rfl hw.sound' ?_ ?_ hNodup ?_ ?_ ?_ ?_
  · intro x hx hStat
    rcases hw.mem_iff.mp hx with ⟨hx, -⟩ | rfl
    · exact ha.got_lt x hx hStat
    · exact hFence ▸ ha.fence_lt id n hn
  · intro hCalm x hx hStat
    rcases hw.mem_iff.mp hx with ⟨hx, -⟩ | rfl
    · exact ha.home hCalm x hx hStat
    · exact ⟨n, (ha.congr _ _ hSame).symm.trans hn, hFence⟩
  · intro x hx hp
    rcases hw.mem_iff.mp hx with ⟨hx, -⟩ | rfl
    · exact ha.freed_got x hx hp
    · rfl
  · intro x hx hStat hPlaced
    rcases hw.mem_iff.mp hx with ⟨hx, hne⟩ | rfl
    · exact ha.waiting x hx hStat fun hp => hPlaced ((hUnplaced _ hne).mpr hp)
    · cases hStat
  · exact (ha.node id n hn).grant hw hInit hSame hFence hFreed hFits hPress hQueueNodup hUnplaced
      hQueue
  · intro x nx hNot hx hne
    have hElse : ¬ ops.Same x r.tokenNeed.id := fun hSame' => hNot (hSame.trans hSame'.symm)
    refine (ha.node x nx hx).of_rewrites hw hInit (fun hc => hElse hc.2)
      (fun hFenced hc => hne hFenced ?_) hUnplaced (Or.inl hElse)
    rw [← hc.2, ← hFence]

/-- The pump grants the front. -/
theorem grantFront (ha : Accounts ops fenced calm look version h unplaced freed) (hn : look id = some n)
    {rs : ResourceList Id} {rest : List (ResourceList Id)}
    (hTokens : n.lheadNodereq.tokenList = rs :: rest) (hFits : n.baseNode.Fits rs.rs.cost) :
    ∃ r ∈ h.reqs, r.stat = .init ∧ r.ptr = rs.owner ∧
      Accounts ops fenced calm
        (setAt ops look id
          { n with
            baseNode     := n.baseNode.chargeSection rs.rs.cost
            lheadNodereq := ⟨n.lheadNodereq.press - rs.rs.cost, rest⟩ })
        version (h.toGot rs.owner).1 unplaced freed := by
  have hNode := ha.node id n hn
  obtain ⟨r, hWaits, rfl⟩ := (hNode.queued rs).mp (by simp [hTokens])
  have hPop : n.lheadNodereq.popFront = ⟨n.lheadNodereq.press - r.needList.rs.cost, rest⟩ := by
    simp [NodereqList.popFront, hTokens]
  have hNodup := hNode.nodup
  rw [hTokens, List.map_cons, List.nodup_cons] at hNodup
  refine ⟨r, hWaits.mem, hWaits.stat, rfl, ?_⟩
  have hPress := hNode.press.popFront
  rw [hPop] at hPress
  refine ha.grant hWaits.mem hWaits.stat hn hWaits.same (hNode.fence r hWaits) hFits hPress
    hNodup.2 ha.unplaced_nodup (fun _ _ => Iff.rfl) fun rs => ?_
  have hQueued := hNode.queued rs
  rw [hTokens, List.mem_cons] at hQueued
  constructor
  · intro hmem
    obtain ⟨x, hx, rfl⟩ := hQueued.mp (Or.inr hmem)
    refine ⟨x, hx, fun hp => hNodup.1 ?_, rfl⟩
    obtain rfl := ha.sound.eq_of_ptr_eq hx.mem hWaits.mem hp
    exact List.mem_map_of_mem hmem
  · rintro ⟨x, hx, hne, rfl⟩
    refine (hQueued.mpr ⟨x, hx, rfl⟩).resolve_left fun heq => hne ?_
    exact congrArg ResourceList.owner heq

/-- An unplaced request is granted at once. -/
theorem placeGot (ha : Accounts ops fenced calm look version h (r.ptr :: unplaced) freed) (hr : r ∈ h.reqs)
    (hInit : r.stat = .init) (hn : look id = some n) (hSame : ops.Same id r.tokenNeed.id)
    (hFence : r.nodeid = n.fenceId) (hFits : n.baseNode.Fits r.tokenNeed.cost) :
    Accounts ops fenced calm
      (setAt ops look id { n with baseNode := n.baseNode.chargeSection r.tokenNeed.cost })
      version (h.toGot r.ptr).1 unplaced freed := by
  have hNode := ha.node id n hn
  refine ha.grant hr hInit hn hSame hFence hFits hNode.press hNode.nodup
    (List.nodup_cons.mp ha.unplaced_nodup).2 (fun _ => mem_cons_iff_of_ne) fun rs => ?_
  rw [hNode.queued]
  constructor
  · rintro ⟨x, hx, rfl⟩
    exact ⟨x, hx, fun hp => hx.placed (hp ▸ List.mem_cons_self), rfl⟩
  · rintro ⟨x, hx, -, rfl⟩
    exact ⟨x, hx, rfl⟩

/-- An unplaced request goes to the end of the queue. -/
theorem placeQueue (ha : Accounts ops fenced calm look version h (r.ptr :: unplaced) freed) (hr : r ∈ h.reqs)
    (hInit : r.stat = .init) (hn : look id = some n) (hSame : ops.Same id r.tokenNeed.id)
    (hFence : r.nodeid = n.fenceId) :
    Accounts ops fenced calm
      (setAt ops look id { n with lheadNodereq := n.lheadNodereq.pushBack r.needList })
      version h unplaced freed := by
  have hNode := ha.node id n hn
  obtain ⟨hNotIn, hNodup⟩ := List.nodup_cons.mp ha.unplaced_nodup
  have hw : Rewrites h r r h :=
    .of_modify (f := fun r => r) ha.sound ha.sound hr rfl rfl (by simp [Keyed.modify])
  -- `r` is the one request that waits now and did not before
  have hWaits : ∀ x, Waits ops h unplaced id x ↔
      Waits ops h (r.ptr :: unplaced) id x ∨ x = r := by
    intro x
    constructor
    · rintro ⟨hx, hStat, hSame', hPlaced⟩
      by_cases hp : x.ptr = r.ptr
      · exact Or.inr (ha.sound.eq_of_ptr_eq hx hr hp)
      · exact Or.inl ⟨hx, hStat, hSame', fun h' => hPlaced ((mem_cons_iff_of_ne hp).mpr h')⟩
    · rintro (⟨hx, hStat, hSame', hPlaced⟩ | rfl)
      · exact ⟨hx, hStat, hSame', fun h' => hPlaced (List.mem_cons_of_mem _ h')⟩
      · exact ⟨hr, hInit, hSame, hNotIn⟩
  refine ha.of_setAt hn rfl ha.sound ha.got_lt ha.home hNodup ha.freed_got ?_ ?_ ?_
  · intro x hx hStat hPlaced
    by_cases hp : x.ptr = r.ptr
    · obtain rfl := ha.sound.eq_of_ptr_eq hx hr hp
      exact ⟨n, by rw [← ha.congr _ _ hSame, hn]⟩
    · exact ha.waiting x hx hStat fun h' => hPlaced ((mem_cons_iff_of_ne hp).mpr h')
  · refine ⟨hNode.inuse, hNode.press.pushBack _, ?_, ?_, ?_, hNode.got_id⟩
    · rw [NodereqList.pushBack_tokenList, List.map_append, List.map_singleton,
        List.nodup_append]
      refine ⟨hNode.nodup, List.nodup_singleton _, ?_⟩
      intro p hp q hq
      obtain ⟨rs, hrs, rfl⟩ := List.mem_map.mp hp
      obtain ⟨x, hx, rfl⟩ := (hNode.queued rs).mp hrs
      rw [List.mem_singleton.mp hq]
      exact fun heq => hx.placed (List.mem_cons.mpr (Or.inl heq))
    · intro rs
      rw [NodereqList.pushBack_tokenList, List.mem_append, List.mem_singleton, hNode.queued]
      simp only [hWaits]
      constructor
      · rintro (⟨x, hx, rfl⟩ | rfl)
        · exact ⟨x, Or.inl hx, rfl⟩
        · exact ⟨r, Or.inr rfl, rfl⟩
      · rintro ⟨x, hx | rfl, rfl⟩
        · exact Or.inl ⟨x, hx, rfl⟩
        · exact Or.inr rfl
    · intro x hx
      rcases (hWaits x).mp hx with hx | rfl
      · exact hNode.fence x hx
      · exact hFence
  · intro x nx hNot hx hne
    refine (ha.node x nx hx).of_rewrites hw hInit (by simp [hInit]) (by simp [hInit])
      (fun _ => mem_cons_iff_of_ne) (Or.inl ?_)
    exact fun hSame' => hNot (hSame.trans hSame'.symm)

-- ---------------------------------------------------------------------------
-- Steps on one node
-- ---------------------------------------------------------------------------

/-- The counters of a node change, but not what is in use. -/
theorem setBase (ha : Accounts ops fenced calm look version h unplaced freed) (hn : look id = some n)
    {base : DispatchBaseNode} (hInuse : base.tokenInuse = n.baseNode.tokenInuse) :
    Accounts ops fenced calm (setAt ops look id { n with baseNode := base }) version h unplaced freed := by
  have hNode := ha.node id n hn
  exact ha.of_setAt hn rfl ha.sound ha.got_lt ha.home ha.unplaced_nodup ha.freed_got ha.waiting
    ⟨fun hc => hInuse.trans (hNode.inuse hc), hNode.press, hNode.nodup, hNode.queued, hNode.fence, hNode.got_id⟩
    fun x nx _ hx _ => ha.node x nx hx

/-- The whole queue of a node is taken off: its requests are unplaced. -/
theorem takeAll (ha : Accounts ops fenced calm look version h [] freed) (hn : look id = some n) :
    Accounts ops fenced calm (setAt ops look id { n with lheadNodereq := n.lheadNodereq.popAll.1 }) version h
      (n.lheadNodereq.tokenList.map ResourceList.owner) freed := by
  have hNode := ha.node id n hn
  -- a request off the queue named this node
  have hOwner : ∀ r ∈ h.reqs, r.ptr ∈ n.lheadNodereq.tokenList.map ResourceList.owner →
      ops.Same id r.tokenNeed.id := by
    intro r hr hp
    obtain ⟨rs, hrs, heq⟩ := List.mem_map.mp hp
    obtain ⟨x, hx, rfl⟩ := (hNode.queued rs).mp hrs
    obtain rfl := ha.sound.eq_of_ptr_eq hx.mem hr heq
    exact hx.same
  have hNone : ∀ r, ¬ Waits ops h (n.lheadNodereq.tokenList.map ResourceList.owner) id r := by
    rintro r ⟨hr, hStat, hSame, hPlaced⟩
    refine hPlaced (List.mem_map.mpr ⟨r.needList, ?_, rfl⟩)
    exact (hNode.queued _).mpr ⟨r, ⟨hr, hStat, hSame, by simp⟩, rfl⟩
  refine ha.of_setAt hn rfl ha.sound ha.got_lt ha.home hNode.nodup ha.freed_got ?_ ?_ ?_
  · exact fun r hr hStat _ => ha.waiting r hr hStat (by simp)
  · refine ⟨hNode.inuse, hNode.press.popAll, by simp, ?_, ?_, hNode.got_id⟩
    · intro rs
      simp [hNone]
    · exact fun r hr => absurd hr (hNone r)
  · intro x nx hNot hx _
    have hNx := ha.node x nx hx
    have hWaits : ∀ r, Waits ops h (n.lheadNodereq.tokenList.map ResourceList.owner) x r ↔
        Waits ops h [] x r := by
      intro r
      constructor
      · exact fun w => ⟨w.mem, w.stat, w.same, by simp⟩
      · rintro ⟨hr, hStat, hSame, -⟩
        exact ⟨hr, hStat, hSame, fun hp => hNot ((hOwner r hr hp).trans hSame.symm)⟩
    refine ⟨hNx.inuse, hNx.press, hNx.nodup, ?_, fun r hr => hNx.fence r ((hWaits r).mp hr),
      hNx.got_id⟩
    intro rs
    simp only [hNx.queued, hWaits]

theorem creditOf_cons (ops : IdOps Id) (freed : List ReqPtr) (id : Id) (fence : BitVec 32)
    (p : ReqPtr) (r : TokenReq Id) :
    creditOf ops id fence (p :: freed) r =
      if r.ptr = p then 0 else creditOf ops id fence freed r := by
  unfold creditOf
  by_cases hp : r.ptr = p <;> simp [hp]

/-- What a request gives back when it is freed. -/
theorem gotSum_cons (ops : IdOps Id) (freed : List ReqPtr) (hs : h.Sound) (hr : r ∈ h.reqs) (id : Id)
    (fence : BitVec 32) :
    gotSum ops h id fence (r.ptr :: freed) + creditOf ops id fence freed r =
      gotSum ops h id fence freed := by
  unfold gotSum
  simp only [funext fun x => creditOf_cons ops freed id fence r.ptr x]
  exact sum_without hs.distinct_reqs (lookup_of_mem hs.distinct_reqs hr)

/-- A got request counts as freed for the nodes that hold nothing of it. -/
theorem NodeAccounts.of_freed {id : Id} (hn : NodeAccounts ops fenced calm h unplaced freed id n)
    (hs : h.Sound) (hr : r ∈ h.reqs)
    (hElse : ¬ (r.nodeid = n.fenceId ∧ ops.Same id r.tokenNeed.id)) :
    NodeAccounts ops fenced calm h unplaced (r.ptr :: freed) id n := by
  refine ⟨fun hc => ?_, hn.press, hn.nodup, hn.queued, hn.fence, hn.got_id⟩
  have hSum := gotSum_cons ops freed hs hr id n.fenceId
  have hZero : creditOf ops id n.fenceId freed r = 0 :=
    if_neg fun hc => hElse ⟨hc.2.1, hc.2.2.1⟩
  rw [hZero, add_zero] at hSum
  exact (hn.inuse hc).trans hSum.symm

theorem freed_cons (ha : Accounts ops fenced calm look version h unplaced freed) (hr : r ∈ h.reqs)
    (hGot : r.stat = .got) : ∀ x ∈ h.reqs, x.ptr ∈ r.ptr :: freed → x.stat = .got := by
  intro x hx hp
  rcases List.mem_cons.mp hp with hp | hp
  · rw [ha.sound.eq_of_ptr_eq hx hr hp, hGot]
  · exact ha.freed_got x hx hp

/-- `free_to_base`, for tokens of this incarnation. -/
theorem freeSelf (ha : Accounts ops fenced calm look version h unplaced freed) (hr : r ∈ h.reqs)
    (hGot : r.stat = .got) (hNew : r.ptr ∉ freed) (hn : look id = some n)
    (hSame : ops.Same id r.tokenNeed.id) (hFence : r.nodeid = n.fenceId) :
    Accounts ops fenced calm
      (setAt ops look id { n with baseNode := n.baseNode.freeToDesc r.tokenNeed.cost })
      version h unplaced (r.ptr :: freed) := by
  have hNode := ha.node id n hn
  refine ha.of_setAt hn rfl ha.sound ha.got_lt ha.home ha.unplaced_nodup (ha.freed_cons hr hGot)
    ha.waiting ?_ ?_
  · refine ⟨fun hc => ?_, hNode.press, hNode.nodup, hNode.queued, hNode.fence, hNode.got_id⟩
    have hSum := gotSum_cons ops freed ha.sound hr id n.fenceId
    have hCredit : creditOf ops id n.fenceId freed r = r.tokenNeed.cost :=
      if_pos ⟨hGot, hFence, hSame, hNew⟩
    rw [hCredit] at hSum
    show n.baseNode.tokenInuse - r.tokenNeed.cost = gotSum ops h id n.fenceId (r.ptr :: freed)
    rw [hNode.inuse hc, ← hSum]
    ring
  · exact fun x nx hNot hx _ => NodeAccounts.of_freed (ha.node x nx hx) ha.sound hr
      fun hc => hNot (hSame.trans hc.2.symm)

/-- Tokens of a node that is gone are nobody's. -/
theorem freeStale (ha : Accounts ops fenced calm look version h unplaced freed) (hr : r ∈ h.reqs)
    (hGot : r.stat = .got)
    (hStale : ∀ nx, look r.tokenNeed.id = some nx → r.nodeid ≠ nx.fenceId) :
    Accounts ops fenced calm look version h unplaced (r.ptr :: freed) where
  sound     := ha.sound
  congr     := ha.congr
  fence_lt  := ha.fence_lt
  fence_inj := ha.fence_inj
  got_lt    := ha.got_lt
  unplaced_nodup := ha.unplaced_nodup
  freed_got := ha.freed_cons hr hGot
  home      := ha.home
  waiting   := ha.waiting
  node      := fun x nx hx => NodeAccounts.of_freed (ha.node x nx hx) ha.sound hr fun hc =>
    hStale nx ((ha.congr _ _ hc.2).symm.trans hx) hc.1

/-- A node comes online, with a fence never used before. -/
theorem online (ha : Accounts ops fenced calm look version h unplaced freed) (hNone : look id = none)
    (hVersion : fenced → version < 2 ^ 32) :
    Accounts ops fenced calm (setAt ops look id (.init (BitVec.ofNat 32 version))) (version + 1) h unplaced
      freed := by
  have hFresh : fenced → ∀ k < version, BitVec.ofNat 32 k ≠ BitVec.ofNat 32 version := by
    intro hFenced k hk heq
    have hVersion := hVersion hFenced
    have := congrArg BitVec.toNat heq
    simp only [BitVec.toNat_ofNat] at this
    omega
  have hStays : ∀ x nx, look x = some nx →
      setAt ops look id (.init (BitVec.ofNat 32 version)) x = some nx := by
    intro x nx hx
    refine (setAt_of_not_same fun hSame => ?_).trans hx
    rw [← ha.congr _ _ hSame, hNone] at hx
    cases hx
  refine ⟨ha.sound, fun a b => setAt_congr ha.congr, ?_, ?_, ?_, ha.unplaced_nodup, ha.freed_got,
    fun hCalm r hr hGot => ?_, fun r hr hInit hPlaced => ?_, ?_⟩
  · intro x nx hx
    rcases setAt_cases hx with ⟨-, rfl⟩ | ⟨-, hx⟩
    · exact ⟨version, Nat.lt_succ_self _, rfl⟩
    · obtain ⟨k, hk, heq⟩ := ha.fence_lt x nx hx
      exact ⟨k, Nat.lt_succ_of_lt hk, heq⟩
  · intro hFenced x y nx ny hx hy heq
    rcases setAt_cases hx with ⟨hSame, rfl⟩ | ⟨-, hx'⟩ <;>
      rcases setAt_cases hy with ⟨hSame', rfl⟩ | ⟨-, hy'⟩
    · exact hSame.symm.trans hSame'
    · obtain ⟨k, hk, hky⟩ := ha.fence_lt y ny hy'
      exact absurd (hky.symm.trans heq.symm) (hFresh hFenced k hk)
    · obtain ⟨k, hk, hkx⟩ := ha.fence_lt x nx hx'
      exact absurd (hkx.symm.trans heq) (hFresh hFenced k hk)
    · exact ha.fence_inj hFenced x y nx ny hx' hy' heq
  · intro r hr hGot
    obtain ⟨k, hk, heq⟩ := ha.got_lt r hr hGot
    exact ⟨k, Nat.lt_succ_of_lt hk, heq⟩
  · obtain ⟨nx, hx, heq⟩ := ha.home hCalm r hr hGot
    exact ⟨nx, hStays _ nx hx, heq⟩
  · obtain ⟨nx, hx⟩ := ha.waiting r hr hInit hPlaced
    exact ⟨nx, hStays _ nx hx⟩
  · intro x nx hx
    rcases setAt_cases hx with ⟨hSame, rfl⟩ | ⟨-, hx⟩
    · -- nobody holds tokens of this fence, nobody waits for this id
      have hNobody : fenced → ∀ r ∈ h.reqs, r.stat = .got →
          r.nodeid ≠ BitVec.ofNat 32 version := by
        intro hFenced r hr hGot heq
        obtain ⟨k, hk, hkr⟩ := ha.got_lt r hr hGot
        exact hFresh hFenced k hk (hkr.symm.trans heq)
      refine .init (fun hc r hr hGot hx => ?_) hNobody fun r hWaits => ?_
      · rcases hc with hFenced | hCalm
        · exact hNobody hFenced r hr hGot
        · obtain ⟨nr, hnr, -⟩ := ha.home hCalm r hr hGot
          rw [← ha.congr _ _ (hSame.trans hx), hNone] at hnr
          cases hnr
      · obtain ⟨nr, hnr⟩ := ha.waiting r hWaits.mem hWaits.stat hWaits.placed
        rw [← ha.congr _ _ (hSame.trans hWaits.same), hNone] at hnr
        cases hnr
    · exact ha.node x nx hx

/-- A node with an empty queue goes offline. -/
theorem offline (ha : Accounts ops fenced calm look version h [] freed) (hCalm : ¬ calm)
    (hn : look id = some n) (hEmpty : n.lheadNodereq.tokenList = []) :
    Accounts ops fenced calm (fun x => if ops.Same id x then none else look x) version h [] freed := by
  have hWas : ∀ x nx, (if ops.Same id x then none else look x) = some nx →
      ¬ ops.Same id x ∧ look x = some nx := by
    intro x nx hx
    split at hx
    · cases hx
    · rename_i hNot
      exact ⟨hNot, hx⟩
  refine ⟨ha.sound, fun a b hSame => hSame.ite_congr (ha.congr a b hSame),
    fun x nx hx => ha.fence_lt x nx (hWas x nx hx).2, fun hFenced x y nx ny hx hy =>
      ha.fence_inj hFenced x y nx ny (hWas x nx hx).2 (hWas y ny hy).2, ha.got_lt,
    ha.unplaced_nodup, ha.freed_got, fun h => absurd h hCalm, ?_,
    fun x nx hx => ha.node x nx (hWas x nx hx).2⟩
  intro r hr hInit hPlaced
  rw [if_neg]
  · exact ha.waiting r hr hInit hPlaced
  · -- nobody waits for a node with an empty queue
    intro hSame
    have := ((ha.node id n hn).queued r.needList).mpr ⟨r, ⟨hr, hInit, hSame, hPlaced⟩, rfl⟩
    rw [hEmpty] at this
    cases this

-- ---------------------------------------------------------------------------
-- Steps on one group
-- ---------------------------------------------------------------------------

/-- A new group: its requests are unplaced. -/
theorem newGroup (ha : Accounts ops fenced calm look version h [] []) {g : TokenReqgrp Id} (hg : g.Sound)
    (hInit : ∀ r ∈ g.lheadReqgrp, r.stat = .init) (hNew : group? h g.gid = none) :
    Accounts ops fenced calm look version (g :: h) (g.lheadReqgrp.map TokenReq.ptr) [] := by
  have hs := ha.sound.cons hg hNew
  have hMem : ∀ r, r ∈ reqs (g :: h) ↔ r ∈ g.lheadReqgrp ∨ r ∈ h.reqs := by
    intro r
    rw [reqs_cons, List.mem_append]
  have hOld : ∀ r ∈ h.reqs, r.ptr ∉ g.lheadReqgrp.map TokenReq.ptr := by
    intro r hr hp
    obtain ⟨r', hr', heq⟩ := List.mem_map.mp hp
    have := hs.distinct_reqs
    unfold Distinct at this
    rw [reqs_cons, List.map_append, List.nodup_append] at this
    exact this.2.2 r'.ptr (List.mem_map_of_mem hr') r.ptr (List.mem_map_of_mem hr) heq
  have hWaits : ∀ x r, Waits ops (g :: h) (g.lheadReqgrp.map TokenReq.ptr) x r ↔
      Waits ops h [] x r := by
    intro x r
    constructor
    · rintro ⟨hr, hStat, hSame, hPlaced⟩
      refine ⟨((hMem r).mp hr).resolve_left fun hr => ?_, hStat, hSame, by simp⟩
      exact hPlaced (List.mem_map_of_mem hr)
    · rintro ⟨hr, hStat, hSame, -⟩
      exact ⟨(hMem r).mpr (Or.inr hr), hStat, hSame, hOld r hr⟩
  have hGot : ∀ r ∈ reqs (g :: h), r.stat = .got → r ∈ h.reqs := by
    intro r hr hStat
    refine ((hMem r).mp hr).resolve_left fun hr => ?_
    rw [hInit r hr] at hStat
    cases hStat
  refine ⟨hs, ha.congr, ha.fence_lt, ha.fence_inj, fun r hr hStat => ha.got_lt r (hGot r hr hStat)
    hStat, ?_, fun r _ hp => by simp at hp,
    fun hCalm r hr hStat => ha.home hCalm r (hGot r hr hStat) hStat, ?_, ?_⟩
  · have := hs.distinct_reqs
    unfold Distinct at this
    rw [reqs_cons, List.map_append] at this
    exact (List.nodup_append.mp this).1
  · intro r hr hStat hPlaced
    refine ha.waiting r (((hMem r).mp hr).resolve_left fun hr => ?_) hStat (by simp)
    exact hPlaced (List.mem_map_of_mem hr)
  · intro x nx hx
    have hNx := ha.node x nx hx
    refine ⟨?_, hNx.press, hNx.nodup, ?_, fun r hr => hNx.fence r ((hWaits x r).mp hr),
      fun hFenced r hr hStat => hNx.got_id hFenced r (hGot r hr hStat) hStat⟩
    · intro hCounted
      have hZero : ∀ c ∈ g.lheadReqgrp.map (creditOf ops x nx.fenceId []), c = 0 := by
        intro c hc
        obtain ⟨r, hr, rfl⟩ := List.mem_map.mp hc
        refine if_neg fun hc => ?_
        rw [hInit r hr] at hc
        cases hc.1
      rw [hNx.inuse hCounted, gotSum, gotSum, reqs_cons, List.map_append, List.sum_append,
        List.sum_eq_zero hZero, zero_add]
    · intro rs
      simp only [hNx.queued, hWaits]

/-- A settled group is dropped, once all it got is freed. -/
theorem dropGroup (ha : Accounts ops fenced calm look version h [] freed) (gid : GrpPtr)
    (hSettled : ∀ r ∈ h.reqs, r.tokenGrp = gid → r.stat ≠ .init)
    (hFreed : ∀ r ∈ h.reqs, r.stat = .got → (r.ptr ∈ freed ↔ r.tokenGrp = gid)) :
    Accounts ops fenced calm look version (erase TokenReqgrp.gid gid h) [] [] := by
  have hMem : ∀ r, r ∈ reqs (erase TokenReqgrp.gid gid h) ↔ r ∈ h.reqs ∧ r.tokenGrp ≠ gid := by
    intro r
    rw [ha.sound.reqs_erase, List.mem_filter, decide_eq_true_eq]
  have hWaits : ∀ x r, Waits ops (erase TokenReqgrp.gid gid h) [] x r ↔ Waits ops h [] x r := by
    intro x r
    constructor
    · exact fun w => ⟨((hMem r).mp w.mem).1, w.stat, w.same, w.placed⟩
    · exact fun w => ⟨(hMem r).mpr ⟨w.mem, fun hg => hSettled r w.mem hg w.stat⟩, w.stat, w.same,
        w.placed⟩
  refine ⟨ha.sound.erase gid, ha.congr, ha.fence_lt, ha.fence_inj,
    fun r hr => ha.got_lt r ((hMem r).mp hr).1, List.nodup_nil, fun r _ hp => by simp at hp,
    fun hCalm r hr => ha.home hCalm r ((hMem r).mp hr).1, fun r hr => ha.waiting r ((hMem r).mp hr).1, ?_⟩
  intro x nx hx
  have hNx := ha.node x nx hx
  refine ⟨?_, hNx.press, hNx.nodup, ?_, fun r hr => hNx.fence r ((hWaits x r).mp hr),
    fun hFenced r hr => hNx.got_id hFenced r ((hMem r).mp hr).1⟩
  · intro hCounted
    have hCredit : ∀ r ∈ h.reqs, creditOf ops x nx.fenceId freed r =
        if decide (r.tokenGrp ≠ gid) = true then creditOf ops x nx.fenceId [] r else 0 := by
      intro r hr
      unfold creditOf
      by_cases hGot : r.stat = .got
      · by_cases hgid : r.tokenGrp = gid
        · simp [hgid, (hFreed r hr hGot).mpr hgid]
        · have hNot : r.ptr ∉ freed := fun hp => hgid ((hFreed r hr hGot).mp hp)
          simp [hgid, hNot]
      · simp [hGot]
    rw [hNx.inuse hCounted, gotSum, gotSum, ha.sound.reqs_erase, sum_filter,
      List.map_congr_left hCredit]
  · intro rs
    simp only [hNx.queued, hWaits]

end Accounts

end DatastorQos
