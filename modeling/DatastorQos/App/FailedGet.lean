import DatastorQos.App.Stock
import Mathlib.Algebra.Order.BigOperators.Group.List

/-!
# datastor_qos — a failed get leaves no trace

A get fails before it made its group, for want of memory, or when its requests
are placed, for want of a node. By then tokens may have been taken on other
nodes. They are given back one request at a time, and each time the node looks
at its queue.

* `DispatchNode.Lent` — a node is as it was, but for tokens lent;
* `Lending` — so is every node, by what the requests of one group hold;
* `Placing.step`, `tryToPutTokens_lending` — a placed request lends, unless it
  waits; a request put gives back, and wakes nobody;
* `failed_get_leaves_no_trace` — what follows for the whole call.
-/

namespace DatastorQos

open Keyed GrpHeap

variable {Id : Type} {ops : IdOps Id}

-- ---------------------------------------------------------------------------
-- One node
-- ---------------------------------------------------------------------------

namespace DispatchNode

/-- The node is as `n₀`, but for `k` tokens lent; its quota may have stepped
down meanwhile. -/
structure Lent (n₀ : DispatchNode Id) (k : Nat) (n : DispatchNode Id) : Prop where
  queue     : n.lheadNodereq = n₀.lheadNodereq
  fence     : n.fenceId = n₀.fenceId
  inuse     : n.baseNode.tokenInuse = n₀.baseNode.tokenInuse + BitVec.ofNat 64 k
  quota_le  : n.baseNode.tokenQuota ≤ n₀.baseNode.tokenQuota
  stepsDown : n.baseNode.StepsDown

namespace Lent

variable {n₀ n : DispatchNode Id} {k : Nat} {cost : ULong}

theorem refl (h : n₀.baseNode.StepsDown) : n₀.Lent 0 n₀ :=
  ⟨rfl, rfl, by simp, BitVec.le_refl _, h⟩

theorem charge (h : n₀.Lent k n) (hFits : n.baseNode.Fits cost) :
    n₀.Lent (k + cost.toNat) { n with baseNode := n.baseNode.chargeSection cost } := by
  obtain ⟨hSteps, hLe⟩ := h.stepsDown.charge cost
  refine ⟨h.queue, h.fence, ?_, BitVec.le_trans hLe h.quota_le, hSteps⟩
  simp only
  rw [DispatchBaseNode.chargeSection_tokenInuse hFits, h.inuse, BitVec.ofNat_add,
    BitVec.ofNat_toNat, BitVec.setWidth_eq, BitVec.add_assoc]

theorem free (h : n₀.Lent (cost.toNat + k) n) :
    n₀.Lent k { n with baseNode := n.baseNode.freeToDesc cost } := by
  refine ⟨h.queue, h.fence, ?_, h.quota_le, h.stepsDown⟩
  simp only [DispatchBaseNode.freeToDesc_tokenInuse]
  rw [h.inuse, BitVec.ofNat_add, BitVec.ofNat_toNat, BitVec.setWidth_eq]
  bv_omega

/-- While no more than `bound` is lent, a front that did not fit does not fit. -/
theorem front_waits (h : n₀.Lent k n) {bound : Nat} (hk : k ≤ bound)
    (hBlocked : FrontBlocked n₀.baseNode n₀.lheadNodereq)
    (hSum : ∀ rs ∈ n₀.lheadNodereq.front,
      n₀.baseNode.tokenInuse.toNat + rs.rs.cost.toNat + bound < 2 ^ 64) :
    ∀ rs ∈ n.lheadNodereq.front, ¬ n.baseNode.Fits rs.rs.cost := by
  intro rs hrs
  rw [h.queue] at hrs
  have hOver := hBlocked rs hrs
  have hNoWrap := hSum rs hrs
  have hInuse := h.inuse
  have hQuota := h.quota_le
  unfold DispatchBaseNode.Fits
  bv_omega

end Lent

/-- Nothing is granted where the front does not fit. -/
theorem resourceIncreased_of_waits {n : DispatchNode Id} (h : GrpHeap Id) (got : List GrpPtr)
    (hWaits : ∀ rs ∈ n.lheadNodereq.front, ¬ n.baseNode.Fits rs.rs.cost) :
    n.resourceIncreased h got = (n, h, got) := by
  unfold resourceIncreased
  split
  · rfl
  · rename_i rs hFront
    obtain ⟨rest, hList⟩ : ∃ rest, n.lheadNodereq.tokenList = rs :: rest :=
      List.head?_eq_some_iff.mp hFront
    have hTry := DispatchBaseNode.tryAllocFromDesc_of_not_fits (hWaits rs hFront)
    simp only [hList, pump, hTry]
    rw [← hList]

end DispatchNode

-- ---------------------------------------------------------------------------
-- What a group holds
-- ---------------------------------------------------------------------------

/-- The tokens a request holds of a node. -/
def TokenReq.tokensGot (ops : IdOps Id) (id : Id) (r : TokenReq Id) : Nat :=
  if r.stat = .got ∧ ops.Same r.tokenNeed.id id then r.tokenNeed.cost.toNat else 0

/-- The tokens some requests hold of a node. -/
def tokensGot (ops : IdOps Id) (id : Id) (rips : List (TokenReq Id)) : Nat :=
  (rips.map (TokenReq.tokensGot ops id)).sum

/-- What the resources of a list cost on a node. -/
def costAt (ops : IdOps Id) (rsList : List (Resource Id)) (id : Id) : Nat :=
  (rsList.map fun rs => if ops.Same rs.id id then rs.cost.toNat else 0).sum

section

variable {id x : Id} {rips : List (TokenReq Id)} {r : TokenReq Id}

theorem tokensGot_of_ne_got (h : r.stat ≠ .got) : r.tokensGot ops id = 0 := if_neg fun hg => h hg.1

theorem tokensGot_of_not_same (h : ¬ ops.Same r.tokenNeed.id id) : r.tokensGot ops id = 0 :=
  if_neg fun hg => h hg.2

theorem tokensGot_of_got (hGot : r.stat = .got) (hSame : ops.Same r.tokenNeed.id id) :
    r.tokensGot ops id = r.tokenNeed.cost.toNat := if_pos ⟨hGot, hSame⟩

theorem tokensGot_cons :
    tokensGot ops id (r :: rips) = r.tokensGot ops id + tokensGot ops id rips :=
  List.sum_cons

theorem tokensGot_eq_zero (h : ∀ r ∈ rips, r.stat ≠ .got) : tokensGot ops id rips = 0 := by
  refine List.sum_eq_zero fun k hk => ?_
  obtain ⟨r, hr, rfl⟩ := List.mem_map.mp hk
  exact tokensGot_of_ne_got (h r hr)

/-- No more than was asked for. -/
theorem tokensGot_le (rips : List (TokenReq Id)) :
    tokensGot ops id rips ≤ costAt ops (rips.map TokenReq.tokenNeed) id := by
  unfold tokensGot costAt
  rw [List.map_map]
  refine List.sum_le_sum fun r _ => ?_
  unfold TokenReq.tokensGot
  rw [Function.comp_apply]
  split
  · rename_i h
    rw [if_pos h.2]
  · exact Nat.zero_le _

theorem costAt_reverse (rsList : List (Resource Id)) :
    costAt ops rsList.reverse id = costAt ops rsList id := by
  unfold costAt
  rw [List.map_reverse, List.sum_reverse]

/-- A request that gets its tokens adds them. -/
theorem tokensGot_modify (hDistinct : Distinct TokenReq.idx rips)
    (hr : lookup TokenReq.idx r.idx rips = some r) (hInit : r.stat = .init)
    (f : TokenReq Id → TokenReq Id) :
    tokensGot ops id (modify TokenReq.idx r.idx f rips) =
      tokensGot ops id rips + (f r).tokensGot ops id := by
  have hSum := sum_modify (w := TokenReq.tokensGot ops id) (f := f) hDistinct hr
  rwa [tokensGot_of_ne_got (by rw [hInit]; decide), Nat.add_zero] at hSum

end

-- ---------------------------------------------------------------------------
-- All nodes
-- ---------------------------------------------------------------------------

/-- The nodes of `m` are those of `m₁`, but for what `rips` hold. -/
structure Lending (m₁ m : Manager ops) (rips : List (TokenReq Id)) : Prop where
  there : ∀ id, (m.node? id).isSome = (m₁.node? id).isSome
  lent  : ∀ id n₀ n, m₁.node? id = some n₀ → m.node? id = some n →
    n₀.Lent (tokensGot ops id rips) n
  fence : ∀ r ∈ rips, r.stat = .got →
    ∃ n₀, m₁.node? r.tokenNeed.id = some n₀ ∧ r.nodeid = n₀.fenceId

/-- No front fits, no quota steps below what it steps down to, and no sum of
token counts overflows on a node while `cost` more tokens are taken there. -/
structure AtRest (m : Manager ops) (cost : Id → Nat) : Prop where
  blocked    : ∀ id n, m.node? id = some n → FrontBlocked n.baseNode n.lheadNodereq
  stepsDown  : ∀ id n, m.node? id = some n → n.baseNode.StepsDown
  noOverflow : ∀ id n, m.node? id = some n → ∀ rs ∈ n.lheadNodereq.front,
    n.baseNode.tokenInuse.toNat + rs.rs.cost.toNat + cost id < 2 ^ 64

section

variable {m m₁ m' : Manager ops} {cost : Id → Nat} {id : Id} {rips rips' : List (TokenReq Id)}
  {r : TokenReq Id} {n n' n₀ : DispatchNode Id} {h : GrpHeap Id}

/-- A node that came online has an empty queue. -/
theorem AtRest.join (hRest : AtRest m cost) (hj : NodesJoin m m₁) : AtRest m₁ cost where
  blocked    := by
    intro id n hn
    rcases hj.new id n hn with hn | ⟨-, version, rfl⟩
    · exact hRest.blocked id n hn
    · exact frontBlocked_of_empty rfl
  stepsDown  := by
    intro id n hn
    rcases hj.new id n hn with hn | ⟨-, version, rfl⟩
    · exact hRest.stepsDown id n hn
    · exact Or.inl rfl
  noOverflow := by
    intro id n hn
    rcases hj.new id n hn with hn | ⟨-, version, rfl⟩
    · exact hRest.noOverflow id n hn
    · intro rs hrs
      cases hrs

namespace Lending

theorem start (hRest : AtRest m₁ cost) (hNone : ∀ r ∈ rips, r.stat ≠ .got) :
    Lending m₁ m₁ rips where
  there := fun _ => rfl
  lent  := by
    intro id n₀ n hn₀ hn
    obtain rfl := Option.some.inj (hn₀.symm.trans hn)
    rw [tokensGot_eq_zero hNone]
    exact .refl (hRest.stepsDown id n₀ hn)
  fence := fun r hr hGot => absurd hGot (hNone r hr)

/-- Every node of `m` was there before. -/
theorem node_of (hl : Lending m₁ m rips) (hn : m.node? id = some n) :
    ∃ n₀, m₁.node? id = some n₀ ∧ n₀.Lent (tokensGot ops id rips) n := by
  have hThere := hl.there id
  rw [hn] at hThere
  obtain ⟨n₀, hn₀⟩ := Option.isSome_iff_exists.mp hThere.symm
  exact ⟨n₀, hn₀, hl.lent id n₀ n hn₀ hn⟩

/-- The lending of another list that holds as much. -/
theorem congr (hl : Lending m₁ m rips) (hNodes : m'.node? = m.node?)
    (hGot : ∀ id, tokensGot ops id rips' = tokensGot ops id rips)
    (hFence : ∀ r ∈ rips', r.stat = .got →
      ∃ n₀, m₁.node? r.tokenNeed.id = some n₀ ∧ r.nodeid = n₀.fenceId) : Lending m₁ m' rips' where
  there := hNodes ▸ hl.there
  lent  := by
    intro id n₀ n hn₀ hn
    rw [hGot]
    exact hl.lent id n₀ n hn₀ (hNodes ▸ hn)
  fence := hFence

/-- One node changes what it lends to one request, the others nothing. -/
theorem setNode (hl : Lending m₁ m rips) (hn : m.node? r.tokenNeed.id = some n)
    (hOther : ∀ id, ¬ ops.Same r.tokenNeed.id id → tokensGot ops id rips' = tokensGot ops id rips)
    (hSelf : ∀ id n₀, ops.Same r.tokenNeed.id id → m₁.node? id = some n₀ →
      n₀.Lent (tokensGot ops id rips) n → n₀.Lent (tokensGot ops id rips') n')
    (hFence : ∀ r ∈ rips', r.stat = .got →
      ∃ n₀, m₁.node? r.tokenNeed.id = some n₀ ∧ r.nodeid = n₀.fenceId) :
    Lending m₁ (m.setNode r.tokenNeed.id n' h) rips' where
  there := by
    intro id
    rw [node?_setNode hn, ← hl.there]
    unfold setAt
    split
    · rename_i hSame
      rw [show m.node? id = m.node? r.tokenNeed.id from (HashTable.find_congr hSame).symm, hn]
      rfl
    · rfl
  lent  := by
    intro id n₀ n₁ hn₀ hn₁
    rw [node?_setNode hn] at hn₁
    rcases setAt_cases hn₁ with ⟨hSame, rfl⟩ | ⟨hNot, hn₁⟩
    · refine hSelf id n₀ hSame hn₀ (hl.lent id n₀ n hn₀ ?_)
      exact (HashTable.find_congr hSame).symm.trans hn
    · rw [hOther id hNot]
      exact hl.lent id n₀ n₁ hn₀ hn₁
  fence := hFence

end Lending

end

-- ---------------------------------------------------------------------------
-- The requests are placed
-- ---------------------------------------------------------------------------

/-- Request `r` of group `g` was placed, and is `f r` now: it waits, it failed
for want of a node, or it has its tokens. -/
structure PlacedOne (m : Manager ops) (g : TokenReqgrp Id) (r : TokenReq Id) (m' : Manager ops)
    (err : QosError) (g' : TokenReqgrp Id) (f : TokenReq Id → TokenReq Id) : Prop where
  group   : group? m'.groups g.gid = some g'
  gid_eq  : g'.gid = g.gid
  sound   : g'.Sound
  reqs_eq : g'.lheadReqgrp = modify TokenReq.idx r.idx f g.lheadReqgrp
  idx_eq  : ∀ x, (f x).idx = x.idx
  need_eq : ∀ x, (f x).tokenNeed = x.tokenNeed
  others  : Keyed.erase TokenReqgrp.gid g.gid m'.groups = Keyed.erase TokenReqgrp.gid g.gid m.groups
  err_eq  : err = g'.answer
  outcome : (f r).stat = .init ∨ (f r).stat = .failed ∧ m'.node? = m.node? ∨
    (f r).stat = .got ∧ ∃ n h, m.node? r.tokenNeed.id = some n ∧ (f r).nodeid = n.fenceId ∧
      n.baseNode.Fits r.tokenNeed.cost ∧
      m' = m.setNode r.tokenNeed.id
        { n with baseNode := n.baseNode.chargeSection r.tokenNeed.cost } h

variable {m m₁ m' : Manager ops} {g : TokenReqgrp Id} {r : TokenReq Id} {rips : List (TokenReq Id)}

theorem tryToAllocFromManager_places (hg : group? m.groups g.gid = some g) (hs : g.Sound)
    (hr : r ∈ g.lheadReqgrp) (hInit : r.stat = .init) :
    ∃ g' f, PlacedOne m g r (m.tryToAllocFromManager r).1 (m.tryToAllocFromManager r).2 g' f := by
  have hOwner : r.ptr.grp = g.gid := hs.owner r hr
  have hReq : g.request? r.idx = some r := lookup_of_mem hs.distinct hr
  rw [← hOwner] at hg
  unfold Manager.tryToAllocFromManager
  split
  · -- no node: the request fails
    have hResolved := hs.toFailed hReq hInit
    obtain ⟨hGroup, hErr⟩ := toFailed_of_group? hg
    rw [hOwner] at hGroup
    refine ⟨_, _, hGroup, hResolved.gid_eq, hResolved.sound, hResolved.reqs_eq, fun _ => rfl,
      fun _ => rfl, ?_, hErr.trans hResolved.err_eq, Or.inr (Or.inl ⟨rfl, rfl⟩)⟩
    rw [← hOwner]
    exact erase_toFailed _ _
  · rename_i n hn
    have hNodeid : group? (m.groups.setNodeid r.ptr n.fenceId) r.ptr.grp =
        some (g.setNodeid r.idx n.fenceId) := by
      rw [group?_setNodeid, if_pos rfl, hg]
      rfl
    obtain ⟨hSound, hInitNr⟩ := hs.setNodeid r.idx n.fenceId
    by_cases hFits : n.baseNode.Fits r.tokenNeed.cost
    · -- the tokens are there
      have hReq' : (g.setNodeid r.idx n.fenceId).request? r.idx =
          some { r with nodeid := n.fenceId } := by
        unfold TokenReqgrp.request? TokenReqgrp.setNodeid at *
        rw [lookup_modify (f := fun r : TokenReq Id => { r with nodeid := n.fenceId }) fun _ => rfl,
          if_pos rfl, hReq]
        rfl
      have hResolved := hSound.toGot hReq' hInit
      obtain ⟨hGroup, hErr⟩ := toGot_of_group? hNodeid
      rw [DispatchNode.allocResource_of_fits hFits]
      refine ⟨_, fun x => { x with nodeid := n.fenceId, stat := .got }, ?_, hResolved.gid_eq,
        hResolved.sound, ?_, fun _ => rfl, fun _ => rfl, ?_, hErr.trans hResolved.err_eq,
        Or.inr (Or.inr ⟨rfl, n, _, hn, rfl, hFits, rfl⟩)⟩
      · rw [← hOwner]
        exact hGroup
      · rw [hResolved.reqs_eq]
        exact modify_modify (f := fun r : TokenReq Id => { r with nodeid := n.fenceId })
          (fun _ => rfl) g.lheadReqgrp
      · rw [← hOwner]
        exact (erase_toGot _ _).trans (erase_setNodeid _ _ _)
    · -- the request waits
      rw [DispatchNode.allocResource_of_not_fits hFits]
      refine ⟨g.setNodeid r.idx n.fenceId, fun x => { x with nodeid := n.fenceId }, ?_, rfl, hSound,
        rfl, fun _ => rfl, fun _ => rfl, ?_, ?_, Or.inl hInit⟩
      · rw [← hOwner]
        exact hNodeid
      · rw [← hOwner]
        exact erase_setNodeid _ _ _
      · unfold TokenReqgrp.answer
        rw [hInitNr, if_neg (Nat.pos_iff_ne_zero.mp (TokenReqgrp.initNr_pos hReq hInit))]

/-- Group `g` with the requests `todo` still to be placed. Either one that was
placed waits, or the group has taken tokens and nothing else happened. -/
structure Placing (m₁ : Manager ops) (need : List (Resource Id)) (todo : List (TokenReq Id))
    (m : Manager ops) (g : TokenReqgrp Id) : Prop where
  group   : group? m.groups g.gid = some g
  sound   : g.Sound
  ahead   : ∀ r ∈ todo, r ∈ g.lheadReqgrp ∧ r.stat = .init
  need    : g.lheadReqgrp.map TokenReq.tokenNeed = need
  others  : Keyed.erase TokenReqgrp.gid g.gid m.groups = Keyed.erase TokenReqgrp.gid g.gid m₁.groups
  lending : (∃ r ∈ g.lheadReqgrp, r.stat = .init ∧ r.idx ∉ todo.map TokenReq.idx) ∨
    Lending m₁ m g.lheadReqgrp

namespace PlacedOne

variable {err : QosError} {g' : TokenReqgrp Id} {f : TokenReq Id → TokenReq Id}

/-- A request that failed holds nothing, one that was granted holds what the
node lent it. -/
theorem lending (hp : PlacedOne m g r m' err g' f) (hs : g.Sound) (hr : r ∈ g.lheadReqgrp)
    (hInit : r.stat = .init) (hl : Lending m₁ m g.lheadReqgrp) (hPlaced : (f r).stat ≠ .init) :
    Lending m₁ m' g'.lheadReqgrp := by
  have hGot : ∀ id, tokensGot ops id g'.lheadReqgrp =
      tokensGot ops id g.lheadReqgrp + (f r).tokensGot ops id := fun id => by
    rw [hp.reqs_eq]
    exact tokensGot_modify hs.distinct (lookup_of_mem hs.distinct hr) hInit f
  have hFence : ((f r).stat = .got → ∃ n₀, m₁.node? r.tokenNeed.id = some n₀ ∧
      (f r).nodeid = n₀.fenceId) → ∀ x ∈ g'.lheadReqgrp, x.stat = .got →
      ∃ n₀, m₁.node? x.tokenNeed.id = some n₀ ∧ x.nodeid = n₀.fenceId := by
    intro hSelf x hx hStat
    rw [hp.reqs_eq] at hx
    rcases mem_modify.mp hx with ⟨hx, -⟩ | ⟨r₀, hr₀, hIdx, rfl⟩
    · exact hl.fence x hx hStat
    · obtain rfl := hs.distinct.eq_of_key_eq hr₀ hr hIdx
      rw [hp.need_eq]
      exact hSelf hStat
  rcases hp.outcome with hWaits | ⟨hFailed, hNodes⟩ | ⟨hStat, n, h, hn, hNodeid, hFits, rfl⟩
  · exact absurd hWaits hPlaced
  · refine hl.congr hNodes (fun id => ?_) (hFence fun hStat => ?_)
    · rw [hGot, tokensGot_of_ne_got (by rw [hFailed]; decide), Nat.add_zero]
    · rw [hFailed] at hStat
      cases hStat
  · have hNeed := hp.need_eq r
    refine hl.setNode hn (fun id hNot => ?_) (fun id n₀ hSame _ hLent => ?_) (hFence fun _ => ?_)
    · rw [hGot, tokensGot_of_not_same (hNeed ▸ hNot), Nat.add_zero]
    · rw [hGot, tokensGot_of_got hStat (hNeed ▸ hSame), hNeed]
      exact hLent.charge hFits
    · obtain ⟨n₀, hn₀, hLent⟩ := hl.node_of hn
      exact ⟨n₀, hn₀, hNodeid.trans hLent.fence⟩

end PlacedOne

/-- One more request is placed. -/
theorem Placing.step {need : List (Resource Id)} {todo : List (TokenReq Id)}
    (hp : Placing m₁ need (r :: todo) m g) (hNodup : ((r :: todo).map TokenReq.idx).Nodup) :
    ∃ g', g'.gid = g.gid ∧ (m.tryToAllocFromManager r).2 = g'.answer ∧
      Placing m₁ need todo (m.tryToAllocFromManager r).1 g' := by
  obtain ⟨hr, hInit⟩ := hp.ahead r List.mem_cons_self
  obtain ⟨hNew, -⟩ := List.nodup_cons.mp hNodup
  obtain ⟨g', f, hOne⟩ := tryToAllocFromManager_places hp.group hp.sound hr hInit
  generalize (m.tryToAllocFromManager r).1 = m' at hOne ⊢
  refine ⟨g', hOne.gid_eq, hOne.err_eq, ?_⟩
  -- the other requests of the group are as they were
  have hKept : ∀ x ∈ g.lheadReqgrp, x.idx ≠ r.idx → x ∈ g'.lheadReqgrp := fun x hx hNe => by
    rw [hOne.reqs_eq]
    exact mem_modify.mpr (Or.inl ⟨hx, hNe⟩)
  exact {
    group   := by
      rw [hOne.gid_eq]
      exact hOne.group
    sound   := hOne.sound
    ahead   := by
      intro x hx
      obtain ⟨hMem, hStat⟩ := hp.ahead x (List.mem_cons_of_mem r hx)
      exact ⟨hKept x hMem fun hIdx => hNew (hIdx ▸ List.mem_map_of_mem hx), hStat⟩
    need    := by
      rw [← hp.need, hOne.reqs_eq, Keyed.modify, List.map_map]
      refine List.map_congr_left fun x _ => ?_
      rw [Function.comp_apply]
      split
      · exact hOne.need_eq x
      · rfl
    others  := by
      rw [hOne.gid_eq]
      exact hOne.others.trans hp.others
    lending := by
      rcases hp.lending with ⟨x, hx, hStat, hOut⟩ | hl
      · rw [List.map_cons, List.mem_cons, not_or] at hOut
        exact Or.inl ⟨x, hKept x hx hOut.1, hStat, hOut.2⟩
      · by_cases hWaits : (f r).stat = .init
        · refine Or.inl ⟨f r, ?_, hWaits, ?_⟩
          · rw [hOne.reqs_eq]
            exact mem_modify.mpr (Or.inr ⟨r, hr, rfl, rfl⟩)
          · rw [hOne.idx_eq]
            exact hNew
        · exact Or.inr (hOne.lending hp.sound hr hInit hl hWaits) }

/-- The get loop, over the requests not yet placed. -/
theorem Placing.run {need : List (Resource Id)} {todo : List (TokenReq Id)} (err : QosError)
    (hp : Placing m₁ need todo m g) (hNodup : (todo.map TokenReq.idx).Nodup)
    (hErr : todo = [] → err = g.answer) :
    ∃ g', g'.gid = g.gid ∧ (m.tryToGetTokens err todo).2 = g'.answer ∧
      Placing m₁ need [] (m.tryToGetTokens err todo).1 g' := by
  induction todo generalizing m g err with
  | nil => exact ⟨g, rfl, hErr rfl, hp⟩
  | cons r rest ih =>
    obtain ⟨g₁, hGid, hAnswer, hPlacing⟩ := hp.step hNodup
    obtain ⟨g', hGid', hAnswer', hPlaced⟩ := ih (m.tryToAllocFromManager r).2 hPlacing
      (List.nodup_cons.mp hNodup).2 fun _ => hAnswer
    exact ⟨g', hGid'.trans hGid, hAnswer', hPlaced⟩

theorem Placing.start {cost : Id → Nat} (hRest : AtRest m₁ cost) (hFresh : g.Fresh)
    (hNonempty : g.lheadReqgrp ≠ []) (hg : group? m₁.groups g.gid = some g) :
    Placing m₁ (g.lheadReqgrp.map TokenReq.tokenNeed) g.lheadReqgrp m₁ g where
  group   := hg
  sound   := hFresh.sound hNonempty
  ahead   := fun r hr => ⟨hr, hFresh.stat_init r hr⟩
  need    := rfl
  others  := rfl
  lending := by
    refine Or.inr (.start hRest fun r hr => ?_)
    rw [hFresh.stat_init r hr]
    decide

/-- Once there is a verdict nothing waits. -/
theorem Placing.lending_of_settled {need : List (Resource Id)} (hp : Placing m₁ need [] m g)
    (hz : g.initNr = 0) : Lending m₁ m g.lheadReqgrp := by
  refine hp.lending.resolve_left ?_
  rintro ⟨r, hr, hStat, -⟩
  have hReq : g.request? r.idx = some r := lookup_of_mem hp.sound.distinct hr
  exact Nat.ne_of_gt (TokenReqgrp.initNr_pos hReq hStat) hz

-- ---------------------------------------------------------------------------
-- The tokens are given back
-- ---------------------------------------------------------------------------

variable {cost : Id → Nat}

/-- A node takes the tokens of one request back. Its front does not fit even
then. -/
theorem tryToFreeToManager_lending (hRest : AtRest m₁ cost) (hGot : r.stat = .got)
    (hl : Lending m₁ m (r :: rips)) (hLe : ∀ id, tokensGot ops id (r :: rips) ≤ cost id)
    (relative : List GrpPtr) :
    ∃ n, m.tryToFreeToManager r relative = (m.setNode r.tokenNeed.id n m.groups, relative) ∧
      Lending m₁ (m.setNode r.tokenNeed.id n m.groups) rips := by
  obtain ⟨n₀, hn₀, hNodeid⟩ := hl.fence r List.mem_cons_self hGot
  obtain ⟨n, hn⟩ := Option.isSome_iff_exists.mp
    ((hl.there r.tokenNeed.id).trans (Option.isSome_of_eq_some hn₀))
  have hLent := hl.lent _ n₀ n hn₀ hn
  have hSplit : ∀ id, ops.Same r.tokenNeed.id id →
      tokensGot ops id (r :: rips) = r.tokenNeed.cost.toNat + tokensGot ops id rips :=
    fun id hSame => by rw [tokensGot_cons, tokensGot_of_got hGot hSame]
  have hBack := hLent
  rw [hSplit _ (ops.same_refl _)] at hBack
  have hLeft : tokensGot ops r.tokenNeed.id rips ≤ cost r.tokenNeed.id :=
    Nat.le_trans (by rw [tokensGot_cons]; exact Nat.le_add_left _ _) (hLe r.tokenNeed.id)
  have hWaits := hBack.free.front_waits hLeft (hRest.blocked _ n₀ hn₀) (hRest.noOverflow _ n₀ hn₀)
  refine ⟨{ n with baseNode := n.baseNode.freeToDesc r.tokenNeed.cost }, ?_,
    hl.setNode hn (fun id hNot => ?_) (fun id n₀ hSame _ hLent => ?_) fun x hx =>
      hl.fence x (List.mem_cons_of_mem r hx)⟩
  · unfold Manager.tryToFreeToManager
    rw [hn]
    simp only
    unfold DispatchNode.freeResource
    rw [if_pos (hNodeid.trans hLent.fence.symm), DispatchNode.resourceIncreased_of_waits _ _ hWaits]
  · rw [tokensGot_cons, tokensGot_of_not_same hNot, Nat.zero_add]
  · rw [hSplit id hSame] at hLent
    exact hLent.free

/-- The put loop, over the requests not yet put. -/
theorem tryToPutTokens_lending (hRest : AtRest m₁ cost) (hs : g.Sound)
    (hMine : ∀ r ∈ rips, r ∈ g.lheadReqgrp) (hg : group? m.groups g.gid = some g)
    (hl : Lending m₁ m rips) (hLe : ∀ id, tokensGot ops id rips ≤ cost id)
    (relative : List GrpPtr) :
    ∃ m', m.tryToPutTokens relative (rips.map TokenReq.ptr) = (m', relative) ∧
      m'.groups = m.groups ∧ Lending m₁ m' [] := by
  induction rips generalizing m with
  | nil => exact ⟨m, rfl, rfl, hl⟩
  | cons r rest ih =>
    have hr := hMine r List.mem_cons_self
    have hReq : m.groups.request? r.ptr = some r := by
      rw [request?, show r.ptr.grp = g.gid from hs.owner r hr, hg]
      exact lookup_of_mem hs.distinct hr
    have hMine' : ∀ x ∈ rest, x ∈ g.lheadReqgrp := fun x hx => hMine x (List.mem_cons_of_mem r hx)
    have hLe' : ∀ id, tokensGot ops id rest ≤ cost id := fun id =>
      Nat.le_trans (by rw [tokensGot_cons]; exact Nat.le_add_left _ _) (hLe id)
    rw [List.map_cons]
    unfold Manager.tryToPutTokens
    simp only [hReq]
    split
    · rename_i hGot
      obtain ⟨n, hFree, hLending⟩ := tryToFreeToManager_lending hRest hGot hl hLe relative
      rw [hFree]
      exact ih hMine' hg hLending hLe'
    · rename_i hNot
      refine ih hMine' hg (hl.congr rfl (fun id => ?_) fun x hx => hl.fence x
        (List.mem_cons_of_mem r hx)) hLe'
      rw [tokensGot_cons, tokensGot_of_ne_got hNot, Nat.zero_add]

-- ---------------------------------------------------------------------------
-- The whole call
-- ---------------------------------------------------------------------------

/-- The nodes and all they hold are as before, and no cache has handed out more. -/
structure Untouched (m m' : Manager ops) : Prop where
  nodeTable    : m'.appNodeTable = m.appNodeTable
  tokenGrps    : m'.tokenGrpCache.outstanding = m.tokenGrpCache.outstanding
  resources    : m'.resourceCache.outstanding = m.resourceCache.outstanding
  managerItems : m'.managerItemCache.outstanding = m.managerItemCache.outstanding
  tableItems   : m'.appNodeTable.cache.outstanding = m.appNodeTable.cache.outstanding

/-- Every node that was online has its tokens back and the queue it had, nobody
was called back, and the group that failed is gone with its requests. -/
structure TokensBack (m : Manager ops) (res : Manager.GetResult ops) : Prop where
  nodes     : ∀ id n, m.node? id = some n → ∃ n', res.manager.node? id = some n' ∧
    n'.baseNode.tokenInuse = n.baseNode.tokenInuse ∧ n'.lheadNodereq = n.lheadNodereq
  callbacks : res.callbacks = []
  groups    : res.manager.groups = m.groups
  tokenGrps : res.manager.tokenGrpCache.outstanding = m.tokenGrpCache.outstanding
  resources : res.manager.resourceCache.outstanding = m.resourceCache.outstanding

/-- A group none of whose requests waits is put: its nodes take back what they
lent it. -/
theorem putTokenGrp_lending (hRest : AtRest m₁ cost) (hs : g.Sound)
    (hg : group? m.groups g.gid = some g) (hl : Lending m₁ m g.lheadReqgrp)
    (hLe : ∀ id, tokensGot ops id g.lheadReqgrp ≤ cost id) :
    (m.putTokenGrp g.gid none).2 = [] ∧
      (m.putTokenGrp g.gid none).1.groups = Keyed.erase TokenReqgrp.gid g.gid m.groups ∧
      (m.putTokenGrp g.gid none).1.tokenGrpCache = m.tokenGrpCache.free ∧
      (m.putTokenGrp g.gid none).1.resourceCache = g.tokenReqgrpExit m.resourceCache ∧
      Lending m₁ (m.putTokenGrp g.gid none).1 [] := by
  obtain ⟨m', hPut, hGroups, hBack⟩ := tryToPutTokens_lending hRest hs
    (fun _ hr => hr) hg hl hLe []
  have hStock := Manager.tryToPutTokens_stock (g.lheadReqgrp.map TokenReq.ptr) m []
  rw [hPut] at hStock
  have hg' : group? m'.groups g.gid = some g := hGroups ▸ hg
  unfold Manager.putTokenGrp
  simp only [Option.map_none, Option.getD_none, Manager.checkNodeOutWhenPut, hg, hPut]
  unfold Manager.freeGroup
  simp only [hg']
  refine ⟨rfl, by rw [hGroups], by rw [hStock.tokenGrps], by rw [hStock.resources], ?_⟩
  exact hBack.congr rfl (fun _ => rfl) hBack.fence

/-- A get that made a group and failed. -/
theorem tokensBack_of_made {ring : ResourceRing Id} {pri : Nat}
    {tokenGrpCache resourceCache : MemoryCache} {m₂ : Manager ops} {err : QosError}
    (hNew : group? m.groups m.nextGrp = none)
    (hRest : AtRest m (costAt ops ring.walk)) (hAlloc : m.tokenGrpCache.alloc = some tokenGrpCache)
    (hInit : TokenReqgrp.tokenReqgrpInit m.nextGrp m.resourceCache ring.walk pri =
      (g, resourceCache, .ok))
    (hIn : { m with
      tokenGrpCache := tokenGrpCache
      resourceCache := resourceCache
      nextGrp       := m.nextGrp + 1
      groups        := g :: m.groups }.checkNodeInWhenGet ring.walk = some m₁)
    (hPlaced : m₁.tryToGetTokens .ok g.lheadReqgrp = (m₂, err)) (hOk : err ≠ .ok)
    (hPending : err ≠ .pending) :
    err = .failedNode ∧ TokensBack m ⟨(m₂.putTokenGrp m.nextGrp none).1, some m.nextGrp, err,
      (m₂.putTokenGrp m.nextGrp none).2⟩ := by
  obtain ⟨hFresh, hNeed, hGid, -⟩ := TokenReqgrp.tokenReqgrpInit_spec hInit
  have hNonempty := ring.reqs_ne_nil hNeed
  have hInGroups : m₁.groups = g :: m.groups := checkNodeInWhenGet_groups hIn
  obtain ⟨hTokenGrps, hResources⟩ := checkNodeInWhenGet_groupCaches hIn
  have hJoin := checkNodeInWhenGet_joins hIn
  have hRest₁ : AtRest m₁ (costAt ops ring.walk) := hRest.join ⟨hJoin.kept, hJoin.new⟩
  obtain ⟨g', hGid', hAnswer, hEnd⟩ := (Placing.start hRest₁ hFresh hNonempty
    (by rw [hInGroups, group?_cons, if_pos rfl])).run .ok hFresh.distinct
    fun hNil => absurd hNil hNonempty
  have hStock := Manager.tryToGetTokens_stock g.lheadReqgrp m₁ .ok
  rw [hPlaced] at hAnswer hEnd hStock
  obtain ⟨hz, hVerdict, hFailed⟩ := Manager.GetMade.failed hAnswer hEnd.sound hOk hPending
  have hLending := hEnd.lending_of_settled hz
  have hLe : ∀ id, tokensGot ops id g'.lheadReqgrp ≤ costAt ops ring.walk id := fun id => by
    refine Nat.le_trans (tokensGot_le _) (Nat.le_of_eq ?_)
    rw [hEnd.need, hNeed, costAt_reverse]
  obtain ⟨hCallbacks, hGroups, hTokenGrps', hResources', hBack⟩ :=
    putTokenGrp_lending hRest₁ hEnd.sound hEnd.group hLending hLe
  have hSame : g'.gid = m.nextGrp := hGid'.trans hGid
  rw [hSame] at hCallbacks hGroups hTokenGrps' hResources' hBack
  refine ⟨hVerdict.trans hFailed, ?_⟩
  exact {
    nodes     := by
      intro id n hn
      have hn₁ := hJoin.kept id n hn
      obtain ⟨n', hn'⟩ := Option.isSome_iff_exists.mp
        ((hBack.there id).trans (Option.isSome_of_eq_some hn₁))
      have hLent := hBack.lent id n n' hn₁ hn'
      refine ⟨n', hn', hLent.inuse.trans ?_, hLent.queue⟩
      exact BitVec.add_zero _
    callbacks := hCallbacks
    groups    := by
      have hOthers := hEnd.others
      rw [hSame, hInGroups, ← hGid, erase_cons_self, hGid, erase_of_lookup_none hNew] at hOthers
      exact hGroups.trans hOthers
    tokenGrps := by
      refine MemoryCache.Took.outstanding_eq ?_
      rw [hTokenGrps', hStock.tokenGrps, hTokenGrps]
      exact MemoryCache.Took.free (.alloc hAlloc)
    resources := by
      have hLength : g'.lheadReqgrp.length = g.lheadReqgrp.length := by
        have hNeeds := congrArg List.length hEnd.need
        rwa [List.length_map, List.length_map] at hNeeds
      refine MemoryCache.Took.outstanding_eq ?_
      rw [hResources', hStock.resources, hResources]
      refine MemoryCache.Took.freeAll ?_
      rw [hLength, Nat.zero_add]
      exact (TokenReqgrp.tokenReqgrpInit_cache hInit).1 }

/-- **A failed get leaves no trace.** Where no front fits, a get that runs out of
memory changes nothing, and one that misses a node gives back every token it
took, without serving anybody. The address of its group is new. -/
theorem failed_get_leaves_no_trace {ring : ResourceRing Id} {pri : Nat}
    {res : Manager.GetResult ops} (hNew : group? m.groups m.nextGrp = none)
    (hRest : AtRest m (costAt ops ring.walk))
    (hGet : m.getTokenGrp ring pri = some res) :
    (res.err = .memory → Untouched m res.manager) ∧ (res.err = .failedNode → TokensBack m res) := by
  cases Manager.getTokenGrp_way hGet with
  | noGroup _ => exact ⟨fun _ => ⟨rfl, rfl, rfl, rfl, rfl⟩, nofun⟩
  | noRequest hAlloc hInit hErr =>
    have hTokenGrps : m.tokenGrpCache.Took _ 0 := MemoryCache.Took.free (.alloc hAlloc)
    have hResources := TokenReqgrp.tokenReqgrpInit_gives_back hInit hErr
    exact ⟨fun _ => ⟨rfl, hTokenGrps.outstanding_eq, hResources.outstanding_eq, rfl, rfl⟩,
      nofun⟩
  | made hAlloc hInit hIn hPlaced hRes =>
    rcases hRes with ⟨rfl | rfl, rfl⟩ | ⟨hOk, hPending, rfl⟩
    · exact ⟨nofun, nofun⟩
    · exact ⟨nofun, nofun⟩
    · obtain ⟨rfl, hBack⟩ := tokensBack_of_made hNew hRest hAlloc hInit hIn hPlaced hOk hPending
      exact ⟨nofun, fun _ => hBack⟩

section MissingNode

/-- A manager with room for one node. -/
def narrowApp : AppState IdOps.nat := ⟨.init IdOps.nat 2 8 8 1 Nat.two_pos, []⟩

def narrowFirst : AppState IdOps.nat := narrowApp.after (getOne 1 6) (by decide)

/-- Six tokens of node 1 are taken, and six are waited for. -/
def narrowSecond : AppState IdOps.nat := narrowFirst.after (getOne 1 6) (by decide)

/-- Four tokens of node 1, and one of node 2. -/
def beyondRoom : ResourceRing ℕ := ⟨⟨2, 1⟩, [⟨1, 4⟩]⟩

theorem narrowSecond_node {id : ℕ} {n : DispatchNode ℕ}
    (hn : narrowSecond.manager.node? id = some n) :
    id = 1 ∧ n = ⟨⟨6, 10, 10, 5, 0⟩, ⟨6, [⟨⟨1, 0⟩, ⟨1, 6⟩⟩]⟩, 0⟩ := by
  have hItems : narrowSecond.manager.appNodeTable.items =
      [⟨1, ⟨⟨6, 10, 10, 5, 0⟩, ⟨6, [⟨⟨1, 0⟩, ⟨1, 6⟩⟩]⟩, 0⟩⟩] := by decide
  obtain ⟨item, hItem, hSame, rfl⟩ := HashTable.find_eq_some_iff.mp hn
  rw [hItems, List.mem_singleton] at hItem
  subst hItem
  exact ⟨(Nat.cast_injective (sub_eq_zero.mp hSame)).symm, rfl⟩

theorem narrowSecond_atRest : AtRest narrowSecond.manager (costAt IdOps.nat beyondRoom.walk) where
  blocked    := by
    intro id n hn rs hrs
    obtain ⟨rfl, rfl⟩ := narrowSecond_node hn
    obtain rfl := Option.some.inj hrs
    decide
  stepsDown  := by
    intro id n hn
    obtain ⟨rfl, rfl⟩ := narrowSecond_node hn
    exact Or.inl rfl
  noOverflow := by
    intro id n hn rs hrs
    obtain ⟨rfl, rfl⟩ := narrowSecond_node hn
    obtain rfl := Option.some.inj hrs
    decide

/-- The four tokens are taken, and given back as there is no node 2. -/
theorem failed_get_leaves_no_trace_missing_node :
    ∃ res, narrowSecond.manager.getTokenGrp beyondRoom 0 = some res ∧ res.err = .failedNode ∧
      TokensBack narrowSecond.manager res := by
  have hFails : (narrowSecond.manager.getTokenGrp beyondRoom 0).map (·.err) = some .failedNode := by
    decide
  obtain ⟨res, hGet, hErr⟩ := Option.map_eq_some_iff.mp hFails
  exact ⟨res, hGet, hErr,
    (failed_get_leaves_no_trace (by decide) narrowSecond_atRest hGet).2 hErr⟩

end MissingNode

end DatastorQos
