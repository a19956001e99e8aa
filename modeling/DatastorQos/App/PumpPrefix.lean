import DatastorQos.Lib.Service
import DatastorQos.App.ManagerRuns
import DatastorQos.App.NodeWakeup
import DatastorQos.App.Pressure
import DatastorQos.App.WaitOrder

/-!
# datastor_qos — what the pump grants

`resource_increased` takes requests off the front of the queue while they fit.
Each grant moves the counters the next one is tested against, and may settle a
group.

* `pump_grants_longest` — it grants the longest piece of the queue that
  fits request by request, over plain numbers, and collects each group it
  settles once; so in every run no queued request is granted while one queued
  before it still waits.
* `queuedIn_of_run` — the queues of the nodes of a manager are as assumed here,
  in every run.
-/

namespace DatastorQos

open Keyed GrpHeap Runs Service Apportion

variable {Id : Type} {h h₁ h' : GrpHeap Id} {rs : ResourceList Id}
  {queue rest granted : List (ResourceList Id)}

-- ---------------------------------------------------------------------------
-- The counters
-- ---------------------------------------------------------------------------

/-- What a grant moves, as numbers. -/
structure Level where
  inuse : ℕ
  quota : ℕ

/-- Grants in plain numbers: a request fits below the quota, and its grant takes
a quota above the target one step down, at most to the target. -/
def steppingServer (Id : Type) (target step : ℕ) : Server Level (ResourceList Id) where
  fits l rs := l.inuse + rs.rs.cost.toNat ≤ l.quota
  take l rs := ⟨l.inuse + rs.rs.cost.toNat,
    if target < l.quota then max target (l.quota - step) else l.quota⟩

/-- Grants as `try_alloc_from_desc` makes them. -/
def baseServer (Id : Type) : Server DispatchBaseNode (ResourceList Id) where
  fits b rs := b.Fits rs.rs.cost
  take b rs := b.chargeSection rs.rs.cost

namespace DispatchBaseNode

variable {b : DispatchBaseNode} {target step : ℕ}

def level (b : DispatchBaseNode) : Level := ⟨b.tokenInuse.toNat, b.tokenQuota.toNat⟩

theorem baseServer_after (b : DispatchBaseNode) (granted : List (ResourceList Id)) :
    (baseServer Id).after b granted = { b with
      tokenInuse := ((baseServer Id).after b granted).tokenInuse
      tokenQuota := ((baseServer Id).after b granted).tokenQuota } := by
  induction granted generalizing b with
  | nil => rfl
  | cons rs granted ih =>
    have hTake : (baseServer Id).take b rs = _ := b.chargeSection_frame rs.rs.cost
    rw [Server.after_cons]
    refine (ih _).trans ?_
    rw [hTake]

/-- The counters stand for these numbers, and no grant of the queue wraps them. -/
structure Counts (target step : ℕ) (b : DispatchBaseNode) (l : Level)
    (queue : List (ResourceList Id)) : Prop where
  level     : b.level = l
  target    : b.tokenQuotaNew.toNat = target
  step      : b.respondStep.toNat = step
  stepsDown : b.StepsDown
  sum_lt    : b.tokenInuse.toNat + total (fun rs => rs.rs.cost) queue < 2 ^ 64

theorem Counts.fits_iff {l : Level} (hc : b.Counts target step l (rs :: rest)) :
    b.Fits rs.rs.cost ↔ (steppingServer Id target step).fits l rs := by
  have hSum := hc.sum_lt
  rw [total_cons] at hSum
  rw [← hc.level]
  show rs.rs.cost + b.tokenInuse ≤ b.tokenQuota ↔
    b.tokenInuse.toNat + rs.rs.cost.toNat ≤ b.tokenQuota.toNat
  bv_omega

/-- **Step lemma**: a grant moves the counters as it moves the numbers. -/
theorem Counts.grant {l : Level} (hc : b.Counts target step l (rs :: rest))
    (hFits : b.Fits rs.rs.cost) :
    (b.chargeSection rs.rs.cost).Counts target step
      ((steppingServer Id target step).take l rs) rest := by
  have hSum := hc.sum_lt
  rw [total_cons] at hSum
  have hInuse : (b.tokenInuse + rs.rs.cost).toNat = b.tokenInuse.toNat + rs.rs.cost.toNat := by
    bv_omega
  have hTarget := hc.target
  have hStep := hc.step
  obtain rfl := hc.level
  have hSteps := (hc.stepsDown.charge rs.rs.cost).1
  unfold Fits at hFits
  by_cases hNew : b.tokenQuotaNew < b.tokenQuota
  · have hRange : b.respondStep ≤ b.tokenQuotaNew := by
      rcases hc.stepsDown with hEq | ⟨hRange, -⟩
      · bv_omega
      · exact hRange
    have hQuota : (ULong.cmax b.tokenQuotaNew (b.tokenQuota - b.respondStep)).toNat =
        max target (b.tokenQuota.toNat - step) := by
      unfold ULong.cmax
      split <;> bv_omega
    have hBelow : target < b.tokenQuota.toNat := by bv_omega
    unfold chargeSection at hSteps ⊢
    rw [if_pos hFits, if_pos hNew] at hSteps ⊢
    refine ⟨?_, hTarget, hStep, hSteps, ?_⟩
    · exact congrArg₂ Level.mk hInuse (hQuota.trans (if_pos hBelow).symm)
    · simp only [hInuse]
      omega
  · have hBelow : ¬ target < b.tokenQuota.toNat := by bv_omega
    unfold chargeSection at hSteps ⊢
    rw [if_pos hFits, if_neg hNew] at hSteps ⊢
    refine ⟨?_, hTarget, hStep, hSteps, ?_⟩
    · exact congrArg₂ Level.mk hInuse (if_neg hBelow).symm
    · simp only [hInuse]
      omega

end DispatchBaseNode

-- ---------------------------------------------------------------------------
-- The requests in memory
-- ---------------------------------------------------------------------------

/-- The queue holds requests of memory that are in `init`, each once. -/
structure QueuedIn (h : GrpHeap Id) (queue : List (ResourceList Id)) : Prop where
  sound   : h.Sound
  nodup   : (queue.map ResourceList.owner).Nodup
  pending : ∀ rs ∈ queue, ∃ r ∈ h.reqs, r.stat = .init ∧ r.needList = rs

/-- From memory `h` to memory `h'` these requests went to `got`, and no other
changed. -/
structure GotAll (h : GrpHeap Id) (owners : List ReqPtr) (h' : GrpHeap Id) : Prop where
  sound   : h'.Sound
  reqs_eq : h'.reqs = h.reqs.map fun r => if r.ptr ∈ owners then { r with stat := .got } else r

theorem GotAll.nil (hs : h.Sound) : GotAll h [] h where
  sound   := hs
  reqs_eq := by simp

theorem GotAll.cons {p : ReqPtr} {owners : List ReqPtr} {err : QosError}
    (hRes : GrpHeap.Resolved h p .got h₁ err) (hGot : GotAll h₁ owners h') :
    GotAll h (p :: owners) h' where
  sound   := hGot.sound
  reqs_eq := by
    rw [hGot.reqs_eq, hRes.reqs_eq]
    unfold Keyed.modify
    rw [List.map_map]
    refine List.map_congr_left fun r _ => ?_
    by_cases hp : r.ptr = p
    · subst hp
      simp [TokenReq.ptr]
    · simp [hp]

/-- A request that did not go to `got` is as it was. -/
theorem GotAll.mem_of_init {owners : List ReqPtr} {r : TokenReq Id} (hGot : GotAll h owners h')
    (hr : r ∈ h'.reqs) (hInit : r.stat = .init) : r ∈ h.reqs ∧ r.ptr ∉ owners := by
  rw [hGot.reqs_eq] at hr
  obtain ⟨r₀, hr₀, heq⟩ := List.mem_map.mp hr
  split at heq
  · rw [← heq] at hInit
    cases hInit
  · rename_i hNot
    rw [← heq]
    exact ⟨hr₀, hNot⟩

theorem GotAll.mem_of_not_mem {owners : List ReqPtr} {r : TokenReq Id} (hGot : GotAll h owners h')
    (hr : r ∈ h.reqs) (hNot : r.ptr ∉ owners) : r ∈ h'.reqs := by
  rw [hGot.reqs_eq]
  exact List.mem_map.mpr ⟨r, hr, if_neg hNot⟩

/-- Where the requests granted were in `init`, a group is collected exactly if they
include its last ones in `init`. -/
theorem Settles.mem_iff {settled : List GrpPtr} {owners : List ReqPtr}
    (hSettles : Settles h settled h') (hs : h.Sound) (hGot : GotAll h owners h') (gid : GrpPtr) :
    gid ∈ settled ↔ h.Unsettled gid ∧
      ∀ r ∈ h.reqs, r.tokenGrp = gid → r.stat = .init → r.ptr ∈ owners := by
  constructor
  · intro hMem
    obtain ⟨g', hg', hz'⟩ := hSettles.listed gid hMem
    obtain ⟨g, hg⟩ := group?_some_of_isSome (hSettles.domain gid).symm hg'
    have hCount := hSettles.counted gid g g' hg hg'
    have hPos : g.initNr ≠ 0 := by
      intro hz
      rw [if_neg fun hc => hc.1 hz] at hCount
      exact (List.count_pos_iff.mpr hMem).ne' hCount
    refine ⟨hs.unsettled_iff.mpr ⟨g, hg, hPos⟩, fun r hr hgrp hInit => ?_⟩
    by_contra hNot
    obtain ⟨g₁, hg₁, hne⟩ :=
      hGot.sound.unsettled_iff.mp ⟨r, hGot.mem_of_not_mem hr hNot, hgrp, hInit⟩
    obtain rfl := Option.some.inj (hg'.symm.trans hg₁)
    exact hne hz'
  · rintro ⟨hu, hAll⟩
    obtain ⟨g, hg, hne⟩ := hs.unsettled_iff.mp hu
    obtain ⟨g', hg'⟩ := group?_some_of_isSome (hSettles.domain gid) hg
    have hz' : g'.initNr = 0 := by
      by_contra hne'
      obtain ⟨r, hr, hgrp, hInit⟩ := hGot.sound.unsettled_iff.mpr ⟨g', hg', hne'⟩
      obtain ⟨hr, hNot⟩ := hGot.mem_of_init hr hInit
      exact hNot (hAll r hr hgrp hInit)
    have hCount := hSettles.counted gid g g' hg hg'
    rw [if_pos ⟨hne, hz'⟩] at hCount
    exact List.count_pos_iff.mp (hCount ▸ Nat.one_pos)

theorem Settles.nodup {settled : List GrpPtr} (hSettles : Settles h settled h') :
    settled.Nodup := by
  rw [List.nodup_iff_count_le_one]
  intro gid
  by_cases hMem : gid ∈ settled
  · obtain ⟨g', hg', -⟩ := hSettles.listed gid hMem
    obtain ⟨g, hg⟩ := group?_some_of_isSome (hSettles.domain gid).symm hg'
    rw [hSettles.counted gid g g' hg hg']
    split <;> omega
  · rw [List.count_eq_zero_of_not_mem hMem]
    exact Nat.zero_le 1

/-- A queue whose requests are as they were is queued in the memory after, too. -/
theorem QueuedIn.of_kept (hq : QueuedIn h queue) (hs : h₁.Sound)
    (hKept : ∀ r ∈ h.reqs, r.ptr ∈ queue.map ResourceList.owner → r ∈ h₁.reqs) :
    QueuedIn h₁ queue where
  sound   := hs
  nodup   := hq.nodup
  pending := by
    intro rs hrs
    obtain ⟨r, hr, hInit, rfl⟩ := hq.pending rs hrs
    exact ⟨r, hKept r hr (List.mem_map_of_mem (f := ResourceList.owner) hrs), hInit, rfl⟩

theorem QueuedIn.of_left (hq : QueuedIn h (granted ++ rest)) : QueuedIn h granted where
  sound   := hq.sound
  nodup   := by
    have := hq.nodup
    rw [List.map_append] at this
    exact (List.nodup_append.mp this).1
  pending := fun rs hrs => hq.pending rs (List.mem_append_left _ hrs)

theorem QueuedIn.of_right (hq : QueuedIn h (granted ++ rest)) : QueuedIn h rest where
  sound   := hq.sound
  nodup   := by
    have := hq.nodup
    rw [List.map_append] at this
    exact (List.nodup_append.mp this).2.1
  pending := fun rs hrs => hq.pending rs (List.mem_append_right _ hrs)

theorem QueuedIn.apart (hq : QueuedIn h (granted ++ rest)) :
    ∀ p ∈ granted.map ResourceList.owner, p ∉ rest.map ResourceList.owner := by
  have := hq.nodup
  rw [List.map_append] at this
  intro p hp hp'
  exact (List.nodup_append.mp this).2.2 p hp p hp' rfl

/-- The grant of a request that is not queued does not concern the queue. -/
theorem QueuedIn.resolved {p : ReqPtr} {err : QosError} (hq : QueuedIn h queue)
    (hRes : GrpHeap.Resolved h p .got h₁ err) (hp : p ∉ queue.map ResourceList.owner) :
    QueuedIn h₁ queue := by
  refine hq.of_kept hRes.sound fun r hr hmem => ?_
  rw [hRes.reqs_eq]
  refine mem_modify.mpr (Or.inl ⟨hr, fun heq => hp ?_⟩)
  rw [← heq]
  exact hmem

theorem QueuedIn.tail {err : QosError} (hq : QueuedIn h (rs :: rest))
    (hRes : GrpHeap.Resolved h rs.owner .got h₁ err) : QueuedIn h₁ rest :=
  have hRest : QueuedIn h ([rs] ++ rest) := hq
  hRest.of_right.resolved hRes (List.nodup_cons.mp hq.nodup).1

/-- No queued request is `got`. -/
theorem QueuedIn.not_got (hq : QueuedIn h queue) (hrs : rs ∈ queue) :
    ∀ r ∈ h.reqs, r.ptr = rs.owner → r.stat ≠ .got := by
  intro r hr hp hGot
  obtain ⟨r₀, hr₀, hInit, rfl⟩ := hq.pending rs hrs
  rw [hq.sound.eq_of_ptr_eq hr hr₀ hp, hInit] at hGot
  cases hGot

/-- The books keep every queue so, in the middle of an operation too. -/
theorem NodeAccounts.queuedIn {ops : IdOps Id} {fenced calm : Prop} {unplaced freed : List ReqPtr}
    {id : Id} {n : DispatchNode Id} (hn : NodeAccounts ops fenced calm h unplaced freed id n)
    (hs : h.Sound) : QueuedIn h n.lheadNodereq.tokenList where
  sound   := hs
  nodup   := hn.nodup
  pending := by
    intro rs hrs
    obtain ⟨r, hWaits, heq⟩ := (hn.queued rs).mp hrs
    exact ⟨r, hWaits.mem, hWaits.stat, heq⟩

/-- The queues of the nodes of a manager hold requests of its groups that are in
`init`, each once, in every run. -/
theorem queuedIn_of_run {ops : IdOps Id} {s₀ s : AppState ops} {tr : List (AppTransition ops)}
    (hInit : (managerSystem ops).init s₀) (hRun : Run (managerSystem ops) s₀ tr s) {id : Id}
    {n : DispatchNode Id} (hn : s.manager.node? id = some n) :
    QueuedIn s.manager.groups n.lheadNodereq.tokenList := by
  have hBooks := (Run.inv_any hInit hRun).books
  exact (hBooks.node id n hn).queuedIn hBooks.sound

-- ---------------------------------------------------------------------------
-- The pump
-- ---------------------------------------------------------------------------

/-- What the pump does with a queue, whatever the counters. -/
structure PumpRun (base : DispatchBaseNode) (h : GrpHeap Id) (granted rest : List (ResourceList Id))
    (settled : List GrpPtr) (h' : GrpHeap Id) : Prop where
  serves  : (baseServer Id).Serves base granted
  blocked : ∀ rs ∈ rest.head?, ¬ ((baseServer Id).after base granted).Fits rs.rs.cost
  got     : GotAll h (granted.map ResourceList.owner) h'
  settles : Settles h settled h'

theorem PumpRun.stop {base : DispatchBaseNode} (hs : h.Sound)
    (hNot : ∀ rs ∈ rest.head?, ¬ base.Fits rs.rs.cost) : PumpRun base h [] rest [] h where
  serves  := trivial
  blocked := hNot
  got     := .nil hs
  settles := .refl hs

/-- The pump, by induction on the queue. -/
theorem pump_run (queue : List (ResourceList Id)) (hq : QueuedIn h queue)
    (base : DispatchBaseNode) (press : ULong) (got : List GrpPtr) :
    ∃ granted rest settled h', queue = granted ++ rest ∧
      DispatchNode.pump base press h got queue =
        ((baseServer Id).after base granted,
          ⟨press - (granted.map fun rs => rs.rs.cost).sum, rest⟩, h', settled ++ got) ∧
      PumpRun base h granted rest settled h' := by
  induction queue generalizing base press h got with
  | nil => exact ⟨[], [], [], h, rfl, by simp [DispatchNode.pump], .stop hq.sound (by simp)⟩
  | cons rs rest ih =>
    unfold DispatchNode.pump
    rcases base.tryAllocFromDesc_cases rs.rs.cost with ⟨hFits, hAlloc⟩ | ⟨hNot, hAlloc⟩
    · obtain ⟨r, hr, hInit, rfl⟩ := hq.pending rs List.mem_cons_self
      obtain ⟨settled, hList, hSettles⟩ := grantFront_settles got hq.sound hr hInit
      have hRes := hq.sound.toGot hr hInit
      rw [← DispatchNode.grantFront_fst h r.ptr got] at hRes
      obtain ⟨granted, rest', settled', h', hQueue, hPump, hRun⟩ := ih (hq.tail hRes)
        (base.chargeSection r.tokenNeed.cost) (press - r.tokenNeed.cost)
        (DispatchNode.grantFront h r.ptr got).2
      refine ⟨r.needList :: granted, rest', settled' ++ settled, h', by rw [hQueue]; rfl, ?_, ?_⟩
      · rw [hAlloc]
        refine hPump.trans ?_
        rw [hList, List.append_assoc, List.map_cons, List.sum_cons, ← sub_sub]
        rfl
      · exact ⟨⟨hFits, hRun.serves⟩, hRun.blocked, .cons hRes hRun.got,
          hSettles.trans hRun.settles⟩
    · refine ⟨[], rs :: rest, [], h, rfl, ?_, .stop hq.sound ?_⟩
      · rw [hAlloc]
        simp
      · simpa using hNot

theorem DispatchNode.resourceIncreased_eq (n : DispatchNode Id) (h : GrpHeap Id)
    (got : List GrpPtr) {base : DispatchBaseNode} {tokens : NodereqList Id} {got' : List GrpPtr}
    (heq : pump n.baseNode n.lheadNodereq.press h got n.lheadNodereq.tokenList =
      (base, tokens, h', got')) :
    n.resourceIncreased h got = ({ n with baseNode := base, lheadNodereq := tokens }, h', got') := by
  unfold resourceIncreased
  split
  · rename_i hNone
    have hNil : n.lheadNodereq.tokenList = [] := List.head?_eq_none_iff.mp hNone
    rw [hNil] at heq
    simp only [pump, Prod.mk.injEq] at heq
    obtain ⟨rfl, rfl, rfl, rfl⟩ := heq
    rw [← hNil]
  · rw [heq]

/-- The node and memory after the pump granted `granted`, and what it collected. -/
structure GrantsPrefix (n : DispatchNode Id) (h : GrpHeap Id) (granted : List (ResourceList Id))
    (settled : List GrpPtr) (n' : DispatchNode Id) (h' : GrpHeap Id) : Prop where
  /-- each request granted fits after those before it, and the next does not -/
  longest : (steppingServer Id n.baseNode.tokenQuotaNew.toNat n.baseNode.respondStep.toNat).Longest
    n.baseNode.level n.lheadNodereq.tokenList granted
  level   : n'.baseNode.level =
    (steppingServer Id n.baseNode.tokenQuotaNew.toNat n.baseNode.respondStep.toNat).after
      n.baseNode.level granted
  /-- nothing else of the node moves -/
  frame   : n' = { n with
    baseNode := { n.baseNode with
      tokenInuse := n'.baseNode.tokenInuse
      tokenQuota := n'.baseNode.tokenQuota }
    lheadNodereq := n'.lheadNodereq }
  queue   : n.lheadNodereq.tokenList = granted ++ n'.lheadNodereq.tokenList
  press   : n'.lheadNodereq.press =
    n.lheadNodereq.press - (granted.map fun rs => rs.rs.cost).sum
  got     : GotAll h (granted.map ResourceList.owner) h'
  once    : settled.Nodup
  /-- the groups whose last requests in `init` were granted -/
  settled : ∀ gid, gid ∈ settled ↔ h.Unsettled gid ∧
    ∀ r ∈ h.reqs, r.tokenGrp = gid → r.stat = .init → r.ptr ∈ granted.map ResourceList.owner

theorem resourceIncreased_grants {n : DispatchNode Id} (hq : QueuedIn h n.lheadNodereq.tokenList)
    (hSteps : n.baseNode.StepsDown)
    (hSum : n.baseNode.tokenInuse.toNat + n.lheadNodereq.demand < 2 ^ 64) (got : List GrpPtr) :
    ∃ granted settled n' h', n.resourceIncreased h got = (n', h', settled ++ got) ∧
      GrantsPrefix n h granted settled n' h' := by
  obtain ⟨granted, rest, settled, h', hQueue, hPump, hRun⟩ :=
    pump_run n.lheadNodereq.tokenList hq n.baseNode n.lheadNodereq.press got
  have hCounts : n.baseNode.Counts n.baseNode.tokenQuotaNew.toNat n.baseNode.respondStep.toNat
      n.baseNode.level (granted ++ rest) := ⟨rfl, rfl, rfl, hSteps, hQueue ▸ hSum⟩
  obtain ⟨hServes, hAfter⟩ := hRun.serves.simulate
    (A := steppingServer Id n.baseNode.tokenQuotaNew.toNat n.baseNode.respondStep.toNat)
    (fun _ _ _ _ hc hFits => ⟨hc.fits_iff.mp hFits, hc.grant hFits⟩) hCounts
  refine ⟨granted, settled, _, h', n.resourceIncreased_eq h got hPump, ?_⟩
  constructor
  · rw [hQueue]
    refine Server.longest_of_blocked hServes fun rs hrs hFits => ?_
    cases rest with
    | nil => cases hrs
    | cons rs' rest =>
      obtain rfl : rs' = rs := Option.some.inj hrs
      exact hRun.blocked rs' rfl (hAfter.fits_iff.mpr hFits)
  · exact hAfter.level
  · rw [DispatchBaseNode.baseServer_after]
  · exact hQueue
  · rfl
  · exact hRun.got
  · exact hRun.settles.nodup
  · exact hRun.settles.mem_iff hq.sound hRun.got

-- ---------------------------------------------------------------------------
-- Calls on the node
-- ---------------------------------------------------------------------------

namespace NodeCall

variable {n : DispatchNode Id} {call : NodeCall Id}

/-- In the memory the call brings, the queue is as it should be, and a request to
be placed is in `init` and not queued. -/
def Finds (n : DispatchNode Id) : NodeCall Id → Prop
  | .allocResource h rs => QueuedIn h (n.lheadNodereq.tokenList ++ [rs])
  | .freeResource h _ | .resourceChanged h _ | .popAll h => QueuedIn h n.lheadNodereq.tokenList
  | .reset => True

/-- The memory the call leaves behind; `reset` needs none. -/
def memory (n : DispatchNode Id) : NodeCall Id → GrpHeap Id
  | .allocResource h rs => (n.allocResource h rs).2.1
  | .freeResource h rip => (n.freeResource h rip []).2.1
  | .resourceChanged h dta => (n.resourceChanged h dta []).2.1
  | .reset => []
  | .popAll h => (n.popAll h []).2.1

/-- After the call the request is `got`. -/
def Grants (n : DispatchNode Id) (call : NodeCall Id) (rs : ResourceList Id) : Prop :=
  ∃ r ∈ (call.memory n).reqs, r.ptr = rs.owner ∧ r.stat = .got

/-- The request the call leaves waiting. -/
def joins (n : DispatchNode Id) : NodeCall Id → List (ResourceList Id)
  | .allocResource _ rs => if n.baseNode.Fits rs.rs.cost then [] else [rs]
  | _ => []

/-- What a call does to the queue: `left` leaves it from the front, and what stays
is not granted. -/
structure Moves (n : DispatchNode Id) (call : NodeCall Id) (left rest : List (ResourceList Id)) :
    Prop where
  before : n.lheadNodereq.tokenList = left ++ rest
  after  : (call.apply n).lheadNodereq.tokenList = rest ++ call.joins n
  apart  : ∀ rs ∈ left, rs ∉ (call.apply n).lheadNodereq.tokenList
  kept   : ∀ rs ∈ rest, ¬ call.Grants n rs

theorem not_grants_of_queuedIn (hq : QueuedIn (call.memory n) queue) (hrs : rs ∈ queue) :
    ¬ call.Grants n rs := by
  rintro ⟨r, hr, hp, hGot⟩
  exact hq.not_got hrs r hr hp hGot

/-- A call that leaves the queue and the states of its requests alone. -/
theorem Moves.still (hq : QueuedIn (call.memory n) n.lheadNodereq.tokenList)
    (hAfter : (call.apply n).lheadNodereq.tokenList =
      n.lheadNodereq.tokenList ++ call.joins n) :
    Moves n call [] n.lheadNodereq.tokenList where
  before := rfl
  after  := hAfter
  apart  := by simp
  kept   := fun _ hrs => not_grants_of_queuedIn hq hrs

/-- A call that ends with the pump, on a node of the same queue. -/
theorem Moves.pump {n₁ : DispatchNode Id} (hq : QueuedIn h n.lheadNodereq.tokenList)
    (hApply : call.apply n = (n₁.resourceIncreased h []).1)
    (hMemory : call.memory n = (n₁.resourceIncreased h []).2.1)
    (hQueue : n₁.lheadNodereq = n.lheadNodereq) (hJoins : call.joins n = []) :
    ∃ left rest, Moves n call left rest := by
  rw [← hQueue] at hq
  obtain ⟨granted, rest, settled, h', hSplit, hPump, hRun⟩ :=
    pump_run n₁.lheadNodereq.tokenList hq n₁.baseNode n₁.lheadNodereq.press []
  rw [n₁.resourceIncreased_eq h [] hPump] at hApply hMemory
  have hAfter : (call.apply n).lheadNodereq.tokenList = rest := by rw [hApply]
  rw [hSplit] at hq
  have hRest : QueuedIn (call.memory n) rest := by
    rw [hMemory]
    refine hq.of_right.of_kept hRun.got.sound fun r hr hp => ?_
    exact hRun.got.mem_of_not_mem hr fun hp' => hq.apart r.ptr hp' hp
  refine ⟨granted, rest, ?_, ?_, ?_, fun _ hrs => not_grants_of_queuedIn hRest hrs⟩
  · rw [← hQueue, hSplit]
  · rw [hAfter, hJoins, List.append_nil]
  · rw [hAfter]
    intro rs hrs hrs'
    exact hq.apart rs.owner (List.mem_map_of_mem hrs) (List.mem_map_of_mem hrs')

/-- A request placed or left waiting moves no request that waits. -/
theorem moves_allocResource (hq : QueuedIn h (n.lheadNodereq.tokenList ++ [rs])) :
    Moves n (.allocResource h rs) [] n.lheadNodereq.tokenList := by
  obtain ⟨r, hr, hInit, rfl⟩ := hq.pending rs (by simp)
  have hRewrites := hq.sound.rewrites_setNodeid hr n.fenceId
  have hNew : r.ptr ∉ n.lheadNodereq.tokenList.map ResourceList.owner :=
    fun hp => hq.apart r.ptr hp (by simp [TokenReq.needList])
  have hq₁ : QueuedIn (h.setNodeid r.ptr n.fenceId) n.lheadNodereq.tokenList := by
    refine hq.of_left.of_kept hRewrites.sound' fun x hx hp => ?_
    refine hRewrites.mem_iff.mpr (Or.inl ⟨hx, fun heq => hNew ?_⟩)
    rw [← heq]
    exact hp
  by_cases hFits : n.baseNode.Fits r.needList.rs.cost
  · have hEq := n.allocResource_of_fits (h := h) hFits
    have hRes := hRewrites.sound'.toGot (hRewrites.mem_iff.mpr (Or.inr rfl)) hInit
    refine .still ?_ ?_
    · show QueuedIn (n.allocResource h r.needList).2.1 _
      rw [hEq]
      exact hq₁.resolved hRes hNew
    · show (n.allocResource h r.needList).1.lheadNodereq.tokenList = _
      rw [hEq, joins, if_pos hFits, List.append_nil]
  · have hEq := n.allocResource_of_not_fits (h := h) hFits
    refine .still ?_ ?_
    · show QueuedIn (n.allocResource h r.needList).2.1 _
      rw [hEq]
      exact hq₁
    · show (n.allocResource h r.needList).1.lheadNodereq.tokenList = _
      rw [hEq, joins, if_neg hFits]
      rfl

/-- A call that touches neither the queue nor the groups. -/
theorem Moves.idle (hq : QueuedIn h n.lheadNodereq.tokenList)
    (hApply : (call.apply n).lheadNodereq = n.lheadNodereq) (hMemory : call.memory n = h)
    (hJoins : call.joins n = []) : Moves n call [] n.lheadNodereq.tokenList := by
  refine .still ?_ ?_
  · rw [hMemory]
    exact hq
  · rw [hApply, hJoins, List.append_nil]

/-- **Step lemma**: a call serves the queue from the front. -/
theorem moves (hLegal : call.Finds n) : ∃ left rest, Moves n call left rest := by
  cases call with
  | allocResource h rs => exact ⟨[], _, moves_allocResource hLegal⟩
  | freeResource h rip =>
    by_cases hFence : rip.nodeid = n.fenceId
    · have hEq : n.freeResource h rip [] = _ := if_pos hFence
      exact Moves.pump hLegal (congrArg Prod.fst hEq) (congrArg (fun res => res.2.1) hEq) rfl rfl
    · have hEq : n.freeResource h rip [] = _ := if_neg hFence
      exact ⟨[], _, .idle hLegal (congrArg (fun res => res.1.lheadNodereq) hEq)
        (congrArg (fun res => res.2.1) hEq) rfl⟩
  | resourceChanged h dta =>
    obtain ⟨isReset, hEq | hEq⟩ := n.resourceChanged_cases dta h []
    · exact Moves.pump hLegal (congrArg Prod.fst hEq) (congrArg (fun res => res.2.1) hEq) rfl rfl
    · exact ⟨[], _, .idle hLegal (congrArg (fun res => res.1.lheadNodereq) hEq)
        (congrArg (fun res => res.2.1) hEq) rfl⟩
  | reset =>
    refine ⟨[], n.lheadNodereq.tokenList, rfl, (List.append_nil _).symm, by simp, ?_⟩
    rintro rs - ⟨r, hr, -⟩
    cases hr
  | popAll h =>
    have hNone : ((NodeCall.popAll h).apply n).lheadNodereq.tokenList = [] :=
      n.popAll_tokenList h []
    refine ⟨n.lheadNodereq.tokenList, [], (List.append_nil _).symm, hNone, ?_, by simp⟩
    rw [hNone]
    simp

end NodeCall

-- ---------------------------------------------------------------------------
-- Whole runs
-- ---------------------------------------------------------------------------

section Runs

variable {n₀ n : DispatchNode Id} {tr : List (Transition (DispatchNode Id) (NodeCall Id))}

/-- The requests queued in a run, in their order, are those that left the queue and
then those that wait. -/
theorem queued_in_order (hInit : nodeSystem.init n₀) (hRun : Run nodeSystem n₀ tr n)
    (hFinds : ∀ x ∈ tr, x.act.Finds x.pre) :
    ∃ gone, tr.flatMap (fun x => x.act.joins x.pre) = gone ++ n.lheadNodereq.tokenList := by
  induction hRun with
  | nil =>
    obtain ⟨version, rfl⟩ := hInit
    exact ⟨[], rfl⟩
  | @snoc t _ _ call _ hStep ih =>
    obtain ⟨gone, hGone⟩ := ih fun x hx => hFinds x (List.mem_append_left _ hx)
    obtain ⟨left, rest, hMoves⟩ : ∃ left rest, NodeCall.Moves t call left rest :=
      NodeCall.moves (hFinds _ (List.mem_append_right _ (List.mem_singleton_self _)))
    refine ⟨gone ++ left, ?_⟩
    rw [List.flatMap_append, hGone, List.flatMap_singleton, hStep.2, hMoves.after, hMoves.before]
    simp only [List.append_assoc]

/-- A call that grants a queued request leaves no earlier one waiting. -/
theorem NodeCall.granted_in_order {call : NodeCall Id} (hFinds : call.Finds n)
    {front back : List (ResourceList Id)} {b : ResourceList Id}
    (hQueue : n.lheadNodereq.tokenList = front ++ b :: back) (hGrants : call.Grants n b) :
    ∀ a ∈ front, a ∉ (call.apply n).lheadNodereq.tokenList := by
  obtain ⟨left, rest, hMoves⟩ := NodeCall.moves hFinds
  have hSplit : front ++ b :: back = left ++ rest := hQueue.symm.trans hMoves.before
  intro a ha
  refine hMoves.apart a ?_
  rcases List.append_eq_append_iff.mp hSplit with ⟨l, hLeft, -⟩ | ⟨l, -, hRest⟩
  · rw [hLeft]
    exact List.mem_append_left _ ha
  · -- what stays is not granted
    refine absurd hGrants (hMoves.kept b ?_)
    rw [hRest]
    exact List.mem_append_right _ List.mem_cons_self

/-- **The pump** grants the longest piece of the queue that fits request by
request; and in every run, the queue of a node is served in the order in which
requests joined it. -/
theorem pump_grants_longest (Id : Type) :
    (∀ (n : DispatchNode Id) (h : GrpHeap Id) (got : List GrpPtr),
      QueuedIn h n.lheadNodereq.tokenList → n.baseNode.StepsDown →
      n.baseNode.tokenInuse.toNat + n.lheadNodereq.demand < 2 ^ 64 →
      ∃ granted settled n' h', n.resourceIncreased h got = (n', h', settled ++ got) ∧
        GrantsPrefix n h granted settled n' h') ∧
    (∀ (n₀ n : DispatchNode Id) (tr : List (Transition (DispatchNode Id) (NodeCall Id))),
      nodeSystem.init n₀ → Run nodeSystem n₀ tr n → (∀ x ∈ tr, x.act.Finds x.pre) →
      (∃ gone, tr.flatMap (fun x => x.act.joins x.pre) = gone ++ n.lheadNodereq.tokenList) ∧
      ∀ x ∈ tr, ∀ front b back, x.pre.lheadNodereq.tokenList = front ++ b :: back →
        x.act.Grants x.pre b → ∀ a ∈ front, a ∉ x.post.lheadNodereq.tokenList) := by
  refine ⟨fun n h got hq hSteps hSum => resourceIncreased_grants hq hSteps hSum got, ?_⟩
  intro n₀ n tr hInit hRun hFinds
  refine ⟨queued_in_order hInit hRun hFinds, fun x hx front b back hQueue hGrants => ?_⟩
  rw [(hRun.step_of_mem x hx).2]
  exact NodeCall.granted_in_order (hFinds x hx) hQueue hGrants

end Runs

section TwoGroups

open TokenReqgrp

/-- A group that asks for 3 and 1 tokens of node 7, and one that asks for 5. -/
def twoGroups : GrpHeap Nat :=
  [(tokenReqgrpInit 0 (.init 2) [⟨7, 3⟩, ⟨7, 1⟩] 0).1, (tokenReqgrpInit 1 (.init 1) [⟨7, 5⟩] 0).1]

def needThree : ResourceList Nat := ⟨⟨0, 0⟩, ⟨7, 3⟩⟩
def needOne : ResourceList Nat := ⟨⟨0, 1⟩, ⟨7, 1⟩⟩
def needFive : ResourceList Nat := ⟨⟨1, 0⟩, ⟨7, 5⟩⟩

/-- A group just made for a resource list is sound. -/
theorem sound_of_init {gid : GrpPtr} {cache : MemoryCache} {rsList : List (Resource Nat)}
    (hOk : (tokenReqgrpInit gid cache rsList 0).2.2 = .ok)
    (hNe : (tokenReqgrpInit gid cache rsList 0).1.lheadReqgrp ≠ []) :
    (tokenReqgrpInit gid cache rsList 0).1.Sound := by
  have hInit : tokenReqgrpInit gid cache rsList 0 = (_, _, .ok) :=
    Prod.ext rfl (Prod.ext rfl hOk)
  exact (tokenReqgrpInit_spec hInit).1.sound hNe

theorem queuedIn_twoGroups : QueuedIn twoGroups [needThree, needOne, needFive] where
  sound   := by
    refine ⟨show [0, 1].Nodup by decide, fun g hg => ?_⟩
    rcases List.mem_cons.mp hg with rfl | hg
    · exact sound_of_init rfl (by decide)
    · obtain rfl := List.mem_singleton.mp hg
      exact sound_of_init rfl (by decide)
  nodup   := by decide
  pending := by decide

/-- Two of ten tokens in use, the quota on its way down to 4 in steps of 3. -/
def threeQueued : DispatchNode Nat where
  baseNode     := ⟨2, 10, 4, 3, 1⟩
  lheadNodereq := ⟨9, [needThree, needOne, needFive]⟩
  fenceId      := 0

/-- The grant of 3 takes the quota to 7, that of 1 to 4, and the 5 waits. The first
group is settled. -/
example : (threeQueued.resourceIncreased twoGroups []).1 =
      ⟨⟨6, 4, 4, 3, 1⟩, ⟨5, [needFive]⟩, 0⟩ ∧
    (threeQueued.resourceIncreased twoGroups []).2.2 = [0] := by decide

/-- A message lowers the quota to 2, requests for 3 and for 1 have to wait behind
one for 5, and a message of 20 lets both through. -/
theorem run_twoGroups :
    ∃ tr n, Run (@nodeSystem Nat) (.init 0) tr n ∧ (∀ x ∈ tr, x.act.Finds x.pre) ∧
      tr.flatMap (fun x => x.act.joins x.pre) = [needThree, needOne] ∧
      n.lheadNodereq.tokenList = [] := by
  have hrun := (Run.nil (S := nodeSystem) (s := DispatchNode.init 0)).snoc
    (NodeCall.step _ (.resourceChanged twoGroups ⟨2, 1⟩) trivial)
    |>.snoc (NodeCall.step _ (.allocResource twoGroups needFive) trivial)
    |>.snoc (NodeCall.step _ (.allocResource twoGroups needThree) trivial)
    |>.snoc (NodeCall.step _ (.allocResource twoGroups needOne) trivial)
    |>.snoc (NodeCall.step _ (.resourceChanged twoGroups ⟨20, 2⟩) trivial)
  have hq : ∀ queue : List (ResourceList Nat), (queue.map ResourceList.owner).Nodup →
      (∀ rs ∈ queue, ∃ r ∈ twoGroups.reqs, r.stat = .init ∧ r.needList = rs) →
      QueuedIn twoGroups queue := fun _ => QueuedIn.mk queuedIn_twoGroups.sound
  refine ⟨_, _, hrun, ?_, by decide, by decide⟩
  simp only [List.nil_append, List.cons_append, List.forall_mem_cons]
  exact ⟨hq [] (by decide) (by decide), hq [needFive] (by decide) (by decide),
    hq [needThree] (by decide) (by decide), hq [needThree, needOne] (by decide) (by decide),
    hq [needThree, needOne] (by decide) (by decide), by simp⟩

theorem pump_grants_longest_two :
    (∃ granted settled n' h', threeQueued.resourceIncreased twoGroups [] =
        (n', h', settled ++ []) ∧ GrantsPrefix threeQueued twoGroups granted settled n' h' ∧
        granted = [needThree, needOne] ∧ settled = [0]) ∧
    ∃ tr n, Run (@nodeSystem Nat) (.init 0) tr n ∧
      ∀ x ∈ tr, ∀ front b back, x.pre.lheadNodereq.tokenList = front ++ b :: back →
        x.act.Grants x.pre b → ∀ a ∈ front, a ∉ x.post.lheadNodereq.tokenList := by
  constructor
  · obtain ⟨granted, settled, n', h', hEq, hPrefix⟩ :=
      (pump_grants_longest Nat).1 threeQueued twoGroups [] queuedIn_twoGroups
        (Or.inr (by decide)) (by decide)
    have hRest : [needFive] = n'.lheadNodereq.tokenList :=
      congrArg (fun res => res.1.lheadNodereq.tokenList) hEq
    have hSettled : [0] = settled ++ [] := congrArg (fun res => res.2.2) hEq
    have hQueue := hPrefix.queue
    rw [← hRest] at hQueue
    refine ⟨granted, settled, n', h', hEq, hPrefix, ?_, ?_⟩
    · have hSplit : [needThree, needOne] ++ [needFive] = granted ++ [needFive] := hQueue
      exact (List.append_cancel_right hSplit).symm
    · rw [hSettled, List.append_nil]
  · obtain ⟨tr, n, hRun, hFinds, -⟩ := run_twoGroups
    exact ⟨tr, n, hRun, ((pump_grants_longest Nat).2 _ n tr ⟨0, rfl⟩ hRun hFinds).2⟩

end TwoGroups

end DatastorQos
