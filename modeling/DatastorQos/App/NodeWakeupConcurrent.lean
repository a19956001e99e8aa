import DatastorQos.Lib.Interleave
import DatastorQos.App.Node

/-!
# datastor_qos — no lost wakeup, concurrent

`alloc_resource` and `free_resource` cut at their locks. The allocator checks
again and queues the request under the node's spin lock. A free gives its tokens
back and looks at the front of the queue before it takes that lock: if the queue
is empty it goes away.

Tokens that come free while a request waits are somebody's business: some free
is past giving back its cost and has not yet seen that the front does not fit
(`NodeInv.woken`). Two steps break this. A free may look at the empty queue
while an allocation whose recheck failed before has not queued its request yet;
and a charge may wrap, which makes room that no free knows of.

* `front_blocked_at_rest` — in every run without these two, with no call in
  progress, the front is blocked;
* `free_slips_before_push` — the first of them, and the request left waiting.
-/

namespace DatastorQos

open Runs Interleave

variable {Id : Type}

/-- What the calls on one node share. `got` holds the got requests that are not
freed yet. -/
structure NodeShared (Id : Type) where
  base   : DispatchBaseNode
  tokens : NodereqList Id
  lck    : Bool
  got    : Multiset (ResourceList Id)

/-- The next section of a call of `alloc_resource` or `free_resource`. -/
inductive NodeSection (Id : Type) where
  /-- `try_alloc_from_base`, the check -/
  | check (rs : ResourceList Id)
  /-- `try_alloc_from_base`, the charge -/
  | charge (rs : ResourceList Id)
  /-- `to_got` -/
  | toGot (rs : ResourceList Id)
  /-- `pthread_spin_lock` in `alloc_resource` -/
  | lockAlloc (rs : ResourceList Id)
  /-- the second `try_alloc_from_base`, the check -/
  | recheck (rs : ResourceList Id)
  /-- the second `try_alloc_from_base`, the charge -/
  | recharge (rs : ResourceList Id)
  /-- `to_got` under the spin lock -/
  | toGotLocked (rs : ResourceList Id)
  /-- `push_back` -/
  | push (rs : ResourceList Id)
  /-- `free_to_base` -/
  | free (rs : ResourceList Id)
  /-- the front check of `resource_increased` before the spin lock -/
  | look
  /-- `pthread_spin_lock` in `resource_increased` -/
  | lockPump
  /-- the front check of the loop -/
  | front
  /-- `try_alloc_from_base` for the front, the check -/
  | pumpCheck (rs : ResourceList Id)
  /-- `try_alloc_from_base` for the front, the charge -/
  | pumpCharge (rs : ResourceList Id)
  /-- `pop_front` -/
  | pop (rs : ResourceList Id)
  /-- `to_got` for the request popped -/
  | pumpGot (rs : ResourceList Id)
  /-- `pthread_spin_unlock` -/
  | unlock
  | returned

namespace NodeSection

/-- The call holds the node's spin lock. -/
def holding : NodeSection Id → Bool
  | recheck _ | recharge _ | toGotLocked _ | push _ | front | pumpCheck _ | pumpCharge _
  | pop _ | pumpGot _ | unlock => true
  | _ => false

/-- The call has given tokens back, or granted the front, and has yet to look
at the front. -/
def pumping : NodeSection Id → Bool
  | look | lockPump | front | pumpCheck _ | pumpCharge _ | pop _ | pumpGot _ => true
  | _ => false

def InProgress (l : NodeSection Id) : Prop := l ≠ returned

end NodeSection

open NodeSection in
/-- The sections of `alloc_resource` and `free_resource`, each one atomic
step. -/
inductive SectionStep :
    NodeShared Id → NodeSection Id → NodeShared Id → NodeSection Id → Prop where
  | checkOk {s rs} : s.base.checkAllocFromDesc rs.rs.cost = .ok →
      SectionStep s (check rs) s (charge rs)
  | checkPending {s rs} : s.base.checkAllocFromDesc rs.rs.cost = .pending →
      SectionStep s (check rs) s (lockAlloc rs)
  | charge {s rs} : SectionStep s (charge rs)
      { s with base := s.base.chargeSection rs.rs.cost } (toGot rs)
  | toGot {s rs} : SectionStep s (toGot rs) { s with got := rs ::ₘ s.got } returned
  | lockAlloc {s rs} : s.lck = false →
      SectionStep s (lockAlloc rs) { s with lck := true } (recheck rs)
  | recheckOk {s rs} : s.base.checkAllocFromDesc rs.rs.cost = .ok →
      SectionStep s (recheck rs) s (recharge rs)
  | recheckPending {s rs} : s.base.checkAllocFromDesc rs.rs.cost = .pending →
      SectionStep s (recheck rs) s (push rs)
  | recharge {s rs} : SectionStep s (recharge rs)
      { s with base := s.base.chargeSection rs.rs.cost } (toGotLocked rs)
  | toGotLocked {s rs} :
      SectionStep s (toGotLocked rs) { s with got := rs ::ₘ s.got } unlock
  | push {s rs} : SectionStep s (push rs) { s with tokens := s.tokens.pushBack rs } unlock
  | free {s rs got} : s.got = rs ::ₘ got →
      SectionStep s (free rs)
        { s with base := s.base.freeToDesc rs.rs.cost, got := got } look
  | lookNone {s} : s.tokens.front = none → SectionStep s look s returned
  | lookSome {s rs} : s.tokens.front = some rs → SectionStep s look s lockPump
  | lockPump {s} : s.lck = false → SectionStep s lockPump { s with lck := true } front
  | frontNone {s} : s.tokens.front = none → SectionStep s front s unlock
  | frontSome {s rs} : s.tokens.front = some rs → SectionStep s front s (pumpCheck rs)
  | pumpCheckPending {s rs} : s.base.checkAllocFromDesc rs.rs.cost = .pending →
      SectionStep s (pumpCheck rs) s unlock
  | pumpCheckOk {s rs} : s.base.checkAllocFromDesc rs.rs.cost = .ok →
      SectionStep s (pumpCheck rs) s (pumpCharge rs)
  | pumpCharge {s rs} : SectionStep s (pumpCharge rs)
      { s with base := s.base.chargeSection rs.rs.cost } (pop rs)
  | pop {s rs} : SectionStep s (pop rs) { s with tokens := s.tokens.popFront } (pumpGot rs)
  | pumpGot {s rs} : SectionStep s (pumpGot rs) { s with got := rs ::ₘ s.got } front
  | unlock {s} : SectionStep s unlock { s with lck := false } returned

def sectionProgram : Program (NodeShared Id) (NodeSection Id) where
  start l := (∃ rs, l = .check rs) ∨ (∃ rs, l = .free rs)
  step := SectionStep

/-- One node of constant quota, nothing in use, nobody waiting. -/
structure NodeShared.Initial (s : NodeShared Id) : Prop where
  quota_const : s.base.tokenQuotaNew = s.base.tokenQuota
  inuse       : s.base.tokenInuse = 0
  tokens      : s.tokens = .init
  lck         : s.lck = false
  got         : s.got = 0

def sectionSystem : System (Config (NodeShared Id) (NodeSection Id)) (Move (NodeSection Id)) :=
  sectionProgram.system NodeShared.Initial

/-- There is room for `cost`. -/
def RoomFor (b : DispatchBaseNode) (cost : ULong) : Prop :=
  b.tokenInuse.toNat + cost.toNat ≤ b.tokenQuota.toNat

/-- A charge that goes through does not wrap. -/
def ChargeExact (b : DispatchBaseNode) (cost : ULong) : Prop :=
  b.Fits cost → b.tokenInuse.toNat + cost.toNat < 2 ^ 64

/-- No free goes away from an empty queue while a request there is room for is
about to be queued, and no charge wraps. -/
def Watched (c : Config (NodeShared Id) (NodeSection Id)) : Move (NodeSection Id) → Prop
  | .run .look _ =>
    c.shared.tokens.front = none → ∀ rs, .push rs ∈ c.calls → ¬ RoomFor c.shared.base rs.rs.cost
  | .run (.charge rs) _ | .run (.recharge rs) _ | .run (.pumpCharge rs) _ =>
    ChargeExact c.shared.base rs.rs.cost
  | _ => True

-- ---------------------------------------------------------------------------
-- The invariant
-- ---------------------------------------------------------------------------

/-- What holds at every section boundary. -/
structure NodeInv (s : NodeShared Id) (calls : Multiset (NodeSection Id)) : Prop where
  quota_const : s.base.tokenQuotaNew = s.base.tokenQuota
  lck_eq      : calls.countP (·.holding) = if s.lck then 1 else 0
  /-- the loop looks at the front it read: only the lock holder moves it -/
  front_eq    : ∀ rs, .pumpCheck rs ∈ calls → s.tokens.front = some rs
  /-- room for the front is some free's business -/
  woken       : (∃ rs ∈ s.tokens.front, RoomFor s.base rs.rs.cost) → ∃ l ∈ calls, l.pumping = true
  /-- and so is room for a request about to become the front -/
  push_woken  : ∀ rs, .push rs ∈ calls → s.tokens.front = none → RoomFor s.base rs.rs.cost →
    ∃ l ∈ calls, l.pumping = true

theorem not_roomFor_of_pending {b : DispatchBaseNode} {cost : ULong}
    (h : b.checkAllocFromDesc cost = .pending) : ¬ RoomFor b cost := by
  intro hRoom
  rw [DispatchBaseNode.checkAllocFromDesc_of_fits] at h
  · cases h
  · unfold RoomFor at hRoom
    unfold DispatchBaseNode.Fits
    bv_omega

/-- A charge that does not wrap makes no room. -/
theorem roomFor_of_charge {b : DispatchBaseNode} {cost cost' : ULong}
    (hConst : b.tokenQuotaNew = b.tokenQuota) (hExact : ChargeExact b cost)
    (h : RoomFor (b.chargeSection cost) cost') : RoomFor b cost' := by
  unfold RoomFor at h ⊢
  rw [DispatchBaseNode.chargeSection_tokenQuota hConst] at h
  by_cases hFits : b.Fits cost
  · have := hExact hFits
    rw [DispatchBaseNode.chargeSection_tokenInuse hFits] at h
    bv_omega
  · rwa [DispatchBaseNode.chargeSection_of_not_fits hFits] at h

/-- While one call holds the spin lock no other does. -/
theorem NodeInv.rest_not_holding {s : NodeShared Id} {l : NodeSection Id}
    {rest : Multiset (NodeSection Id)} (h : NodeInv s (l ::ₘ rest)) (hl : l.holding = true) :
    ∀ k ∈ rest, k.holding = false := by
  have hLck := h.lck_eq
  rw [Multiset.countP_cons_of_pos (p := fun k : NodeSection Id => k.holding = true) rest hl]
    at hLck
  intro k hk
  have hZero : rest.countP (·.holding) = 0 := by
    split at hLck <;> omega
  simpa using (Multiset.countP_eq_zero (p := (·.holding = true))).mp hZero k hk

/-- A step that leaves the queue alone, and passes on whatever it was charged
with, keeps the invariant. -/
theorem NodeInv.of_tokens_eq {s s' : NodeShared Id} {l l' : NodeSection Id}
    {rest : Multiset (NodeSection Id)} (h : NodeInv s (l ::ₘ rest))
    (hConst : s'.base.tokenQuotaNew = s'.base.tokenQuota)
    (hTokens : s'.tokens = s.tokens)
    (hLck : (l' ::ₘ rest).countP (·.holding) = if s'.lck then 1 else 0)
    (hCheck : ∀ rs, l' = .pumpCheck rs → s.tokens.front = some rs)
    (hPush : ∀ rs, l' = .push rs → ¬ RoomFor s'.base rs.rs.cost)
    (hWake : l'.pumping = true ∨
      (∀ cost, RoomFor s'.base cost → RoomFor s.base cost) ∧
      (l.pumping = true → (∀ rs ∈ s.tokens.front, ¬ RoomFor s.base rs.rs.cost) ∧
        (s.tokens.front = none → ∀ rs, .push rs ∈ rest → ¬ RoomFor s.base rs.rs.cost))) :
    NodeInv s' (l' ::ₘ rest) := by
  -- somebody else's business stays somebody else's business
  have hElse : l.pumping = false → (∃ k ∈ l ::ₘ rest, k.pumping = true) →
      ∃ k ∈ l' ::ₘ rest, k.pumping = true := by
    rintro hl ⟨k, hk, hp⟩
    rcases Multiset.mem_cons.mp hk with rfl | hk
    · rw [hl] at hp
      cases hp
    · exact ⟨k, Multiset.mem_cons_of_mem hk, hp⟩
  refine ⟨hConst, hLck, ?_, ?_, ?_⟩
  · intro rs hrs
    rw [hTokens]
    rcases Multiset.mem_cons.mp hrs with heq | hrs
    · exact hCheck rs heq.symm
    · exact h.front_eq rs (Multiset.mem_cons_of_mem hrs)
  · rintro ⟨rs, hrs, hRoom⟩
    rw [hTokens] at hrs
    rcases hWake with hWake | ⟨hMono, hDone⟩
    · exact ⟨l', Multiset.mem_cons_self _ _, hWake⟩
    · cases hl : l.pumping with
      | true => exact absurd (hMono _ hRoom) ((hDone hl).1 rs hrs)
      | false => exact hElse hl (h.woken ⟨rs, hrs, hMono _ hRoom⟩)
  · intro rs hrs hNone hRoom
    rw [hTokens] at hNone
    rcases hWake with hWake | ⟨hMono, hDone⟩
    · exact ⟨l', Multiset.mem_cons_self _ _, hWake⟩
    · rcases Multiset.mem_cons.mp hrs with heq | hrs
      · exact absurd hRoom (hPush rs heq.symm)
      · cases hl : l.pumping with
        | true => exact absurd (hMono _ hRoom) ((hDone hl).2 hNone rs hrs)
        | false =>
          exact hElse hl
            (h.push_woken rs (Multiset.mem_cons_of_mem hrs) hNone (hMono _ hRoom))

-- ---------------------------------------------------------------------------
-- One section
-- ---------------------------------------------------------------------------

variable {s s' : NodeShared Id} {l l' : NodeSection Id} {rest : Multiset (NodeSection Id)}

theorem NodeInv.lck_kept (h : NodeInv s (l ::ₘ rest)) (hl : l'.holding = l.holding) :
    (l' ::ₘ rest).countP (·.holding) = if s.lck then 1 else 0 := by
  rw [← h.lck_eq, Multiset.countP_cons, Multiset.countP_cons, hl]

theorem NodeInv.lck_taken (h : NodeInv s (l ::ₘ rest)) (hFree : s.lck = false)
    (hl : l.holding = false) (hl' : l'.holding = true) :
    (l' ::ₘ rest).countP (·.holding) = 1 := by
  have hLck := h.lck_eq
  rw [Multiset.countP_cons_of_neg (p := fun k : NodeSection Id => k.holding = true) rest
    (by simp [hl]), hFree] at hLck
  rw [Multiset.countP_cons_of_pos (p := fun k : NodeSection Id => k.holding = true) rest hl', hLck]
  rfl

theorem NodeInv.lck_released (h : NodeInv s (l ::ₘ rest)) (hl : l.holding = true)
    (hl' : l'.holding = false) : (l' ::ₘ rest).countP (·.holding) = 0 := by
  rw [Multiset.countP_cons_of_neg (p := fun k : NodeSection Id => k.holding = true) rest
    (by simp [hl']), Multiset.countP_eq_zero]
  intro k hk
  simp [h.rest_not_holding hl k hk]

/-- A section that touches neither counters nor queue, of a call that has
nothing to pass on. -/
theorem NodeInv.of_quiet (h : NodeInv s (l ::ₘ rest)) (hBase : s'.base = s.base)
    (hTokens : s'.tokens = s.tokens)
    (hLck : (l' ::ₘ rest).countP (·.holding) = if s'.lck then 1 else 0)
    (hCheck : ∀ rs, l' ≠ .pumpCheck rs) (hPush : ∀ rs, l' ≠ .push rs)
    (hPump : l.pumping = true → l'.pumping = true) : NodeInv s' (l' ::ₘ rest) := by
  refine h.of_tokens_eq ?_ hTokens hLck (fun rs hl' => absurd hl' (hCheck rs))
    (fun rs hl' => absurd hl' (hPush rs)) ?_
  · rw [hBase]
    exact h.quota_const
  · cases hl' : l'.pumping with
    | true => exact Or.inl rfl
    | false =>
      rw [hBase]
      refine Or.inr ⟨fun _ => id, fun hl => ?_⟩
      rw [hPump hl] at hl'
      cases hl'

/-- A charge that does not wrap. -/
theorem NodeInv.charge {rs : ResourceList Id} (h : NodeInv s (l ::ₘ rest))
    (hExact : ChargeExact s.base rs.rs.cost) (hl : l'.holding = l.holding)
    (hCheck : ∀ rs, l' ≠ .pumpCheck rs) (hPush : ∀ rs, l' ≠ .push rs)
    (hPump : l.pumping = true → l'.pumping = true) :
    NodeInv { s with base := s.base.chargeSection rs.rs.cost } (l' ::ₘ rest) := by
  refine h.of_tokens_eq ?_ rfl (h.lck_kept hl) (fun rs hl' => absurd hl' (hCheck rs))
    (fun rs hl' => absurd hl' (hPush rs)) ?_
  · rw [DispatchBaseNode.chargeSection_tokenQuotaNew,
      DispatchBaseNode.chargeSection_tokenQuota h.quota_const]
    exact h.quota_const
  · cases hl' : l'.pumping with
    | true => exact Or.inl rfl
    | false =>
      refine Or.inr ⟨fun _ => roomFor_of_charge h.quota_const hExact, fun hl => ?_⟩
      rw [hPump hl] at hl'
      cases hl'

/-- `push_back`: the newcomer waits behind the front, or is the front, and room
for it was somebody's business before. -/
theorem NodeInv.push {rs : ResourceList Id} (h : NodeInv s (.push rs ::ₘ rest)) :
    NodeInv { s with tokens := s.tokens.pushBack rs } (.unlock ::ₘ rest) := by
  have hAlone := h.rest_not_holding rfl
  have hElse : (∃ k ∈ (.push rs : NodeSection Id) ::ₘ rest, k.pumping = true) →
      ∃ k ∈ (.unlock : NodeSection Id) ::ₘ rest, k.pumping = true := by
    rintro ⟨k, hk, hp⟩
    rcases Multiset.mem_cons.mp hk with rfl | hk
    · cases hp
    · exact ⟨k, Multiset.mem_cons_of_mem hk, hp⟩
  refine ⟨h.quota_const, h.lck_kept rfl, ?_, ?_, ?_⟩
  · intro rs' hrs'
    have := hAlone _ ((Multiset.mem_cons.mp hrs').resolve_left (by simp))
    cases this
  · rintro ⟨rs', hrs', hRoom⟩
    simp only [NodereqList.pushBack_front] at hrs'
    cases hFront : s.tokens.front with
    | some front =>
      rw [hFront] at hrs'
      obtain rfl : front = rs' := by simpa using hrs'
      exact hElse (h.woken ⟨front, hFront, hRoom⟩)
    | none =>
      rw [hFront] at hrs'
      obtain rfl : rs = rs' := by simpa using hrs'
      exact hElse (h.push_woken rs (Multiset.mem_cons_self _ _) hFront hRoom)
  · intro rs' hrs'
    have := hAlone _ ((Multiset.mem_cons.mp hrs').resolve_left (by simp))
    cases this

/-- `pop_front`: the loop goes on to look at the next front. -/
theorem NodeInv.pop {rs : ResourceList Id} (h : NodeInv s (.pop rs ::ₘ rest)) :
    NodeInv { s with tokens := s.tokens.popFront } (.pumpGot rs ::ₘ rest) := by
  have hAlone := h.rest_not_holding rfl
  have hMine : ∃ k ∈ (.pumpGot rs : NodeSection Id) ::ₘ rest, k.pumping = true :=
    ⟨_, Multiset.mem_cons_self _ _, rfl⟩
  refine ⟨h.quota_const, h.lck_kept rfl, ?_, fun _ => hMine, fun _ _ _ _ => hMine⟩
  intro rs' hrs'
  have := hAlone _ ((Multiset.mem_cons.mp hrs').resolve_left (by simp))
  cases this

/-- **Step lemma**: a watched section keeps the invariant. -/
theorem NodeInv.step (h : NodeInv s (l ::ₘ rest)) (hs : SectionStep s l s' l')
    (hWatched : Watched ⟨s, l ::ₘ rest⟩ (.run l l')) : NodeInv s' (l' ::ₘ rest) := by
  cases hs with
  | checkOk | checkPending | toGot | recheckOk | toGotLocked | lookSome | pumpCheckOk | pumpGot =>
    exact h.of_quiet rfl rfl (h.lck_kept rfl) (by simp) (by simp) (by simp [NodeSection.pumping])
  | charge | recharge | pumpCharge =>
    exact h.charge hWatched rfl (by simp) (by simp) (by simp [NodeSection.pumping])
  | lockAlloc hFree | lockPump hFree =>
    exact h.of_quiet rfl rfl (h.lck_taken hFree rfl rfl) (by simp) (by simp)
      (by simp [NodeSection.pumping])
  | unlock =>
    exact h.of_quiet rfl rfl (h.lck_released rfl rfl) (by simp) (by simp)
      (by simp [NodeSection.pumping])
  | recheckPending hPending =>
    -- the request about to be queued does not fit now
    refine h.of_tokens_eq h.quota_const rfl (h.lck_kept rfl) (by simp) ?_ ?_
    · rintro rs' heq
      obtain rfl := NodeSection.push.inj heq
      exact not_roomFor_of_pending hPending
    · exact Or.inr ⟨fun _ => id, by simp [NodeSection.pumping]⟩
  | push => exact h.push
  | free _ =>
    -- the room a free makes is its own business
    exact h.of_tokens_eq h.quota_const rfl (h.lck_kept rfl) (by simp) (by simp) (Or.inl rfl)
  | lookNone hNone =>
    refine h.of_tokens_eq h.quota_const rfl (h.lck_kept rfl) (by simp) (by simp) ?_
    refine Or.inr ⟨fun _ => id, fun _ => ⟨by simp [hNone], fun _ rs hrs => ?_⟩⟩
    exact hWatched hNone rs (Multiset.mem_cons_of_mem hrs)
  | frontNone hNone =>
    -- the lock holder is alone: nobody is about to queue a request
    refine h.of_tokens_eq h.quota_const rfl (h.lck_kept rfl) (by simp) (by simp) ?_
    refine Or.inr ⟨fun _ => id, fun _ => ⟨by simp [hNone], fun _ rs hrs => ?_⟩⟩
    cases h.rest_not_holding rfl _ hrs
  | frontSome hFront =>
    refine h.of_tokens_eq h.quota_const rfl (h.lck_kept rfl) ?_ (by simp) (Or.inl rfl)
    rintro rs' heq
    obtain rfl := NodeSection.pumpCheck.inj heq
    exact hFront
  | pumpCheckPending hPending =>
    -- the front read is the front still, and it does not fit
    refine h.of_tokens_eq h.quota_const rfl (h.lck_kept rfl) (by simp) (by simp) ?_
    have hFront := h.front_eq _ (Multiset.mem_cons_self _ _)
    refine Or.inr ⟨fun _ => id, fun _ => ⟨fun rs' hrs' => ?_, fun hNone => ?_⟩⟩
    · rw [hFront] at hrs'
      obtain rfl := Option.some.inj hrs'
      exact not_roomFor_of_pending hPending
    · rw [hFront] at hNone
      cases hNone
  | pop => exact h.pop

theorem NodeInv.start (h : NodeInv s rest) (hl : (∃ rs, l = .check rs) ∨ ∃ rs, l = .free rs) :
    NodeInv s (l ::ₘ rest) := by
  have hNew : l.holding = false ∧ l.pumping = false ∧ (∀ rs, .pumpCheck rs ≠ l) ∧
      ∀ rs, .push rs ≠ l := by
    rcases hl with ⟨rs, rfl⟩ | ⟨rs, rfl⟩ <;>
      simp [NodeSection.holding, NodeSection.pumping]
  have hMore : (∃ k ∈ rest, k.pumping = true) → ∃ k ∈ l ::ₘ rest, k.pumping = true :=
    fun ⟨k, hk, hp⟩ => ⟨k, Multiset.mem_cons_of_mem hk, hp⟩
  refine ⟨h.quota_const, ?_, ?_, fun hRoom => hMore (h.woken hRoom), ?_⟩
  · rw [Multiset.countP_cons_of_neg (p := fun k : NodeSection Id => k.holding = true) rest
      (by simp [hNew.1])]
    exact h.lck_eq
  · intro rs hrs
    exact h.front_eq rs ((Multiset.mem_cons.mp hrs).resolve_left (hNew.2.2.1 rs))
  · intro rs hrs hNone hRoom
    exact hMore (h.push_woken rs ((Multiset.mem_cons.mp hrs).resolve_left (hNew.2.2.2 rs))
      hNone hRoom)

theorem NodeShared.Initial.nodeInv (h : s.Initial) : NodeInv s 0 where
  quota_const := h.quota_const
  lck_eq      := by simp [h.lck]
  front_eq    := by simp
  woken       := by simp [h.tokens, NodereqList.front]
  push_woken  := by simp

-- ---------------------------------------------------------------------------
-- Whole runs
-- ---------------------------------------------------------------------------

theorem nodeInv_of_watched {c₀ c : Config (NodeShared Id) (NodeSection Id)}
    {tr : List (Transition (Config (NodeShared Id) (NodeSection Id)) (Move (NodeSection Id)))}
    (hinit : sectionSystem.init c₀) (hrun : Run sectionSystem c₀ tr c)
    (hWatched : ∀ x ∈ tr, Watched x.pre x.act) : NodeInv c.shared c.calls := by
  obtain ⟨s₀, calls⟩ := c₀
  obtain ⟨hs₀, rfl⟩ := hinit
  have hRestrict := run_restrict.mpr ⟨hrun, hWatched⟩
  refine hRestrict.invariant (I := fun c => NodeInv c.shared c.calls) ?_ hs₀.nodeInv
  rintro _ _ _ hInv ⟨hWatched, hst⟩
  cases hst with
  | start hl => exact hInv.start hl
  | run hs => exact hInv.step hs hWatched

/-- **No lost wakeup, concurrent.** With no call in progress the front of the
queue is blocked, in every state of every run in which no free goes away from
an empty queue while a request there is room for is about to be queued, and no
charge wraps. -/
theorem front_blocked_at_rest {c₀ c : Config (NodeShared Id) (NodeSection Id)}
    {tr : List (Transition (Config (NodeShared Id) (NodeSection Id)) (Move (NodeSection Id)))}
    (hinit : sectionSystem.init c₀) (hrun : Run sectionSystem c₀ tr c)
    (hWatched : ∀ x ∈ tr, Watched x.pre x.act) (hRest : ∀ l ∈ c.calls, ¬ l.InProgress) :
    FrontBlocked c.shared.base c.shared.tokens := by
  have hInv := nodeInv_of_watched hinit hrun hWatched
  intro rs hrs
  by_contra hNot
  obtain ⟨l, hl, hp⟩ := hInv.woken ⟨rs, hrs, by unfold RoomFor; omega⟩
  obtain rfl : l = .returned := not_not.mp (hRest l hl)
  cases hp

/-- One section of one call, as a step of the interleaving. -/
theorem SectionStep.move (hs : SectionStep s l s' l') :
    sectionSystem.step ⟨s, l ::ₘ rest⟩ (.run l l') ⟨s', l' ::ₘ rest⟩ := Step.run hs

/-- A call starts. -/
theorem sectionSystem_start (hl : (∃ rs, l = .check rs) ∨ ∃ rs, l = .free rs) :
    sectionSystem.step ⟨s, rest⟩ (.start l) ⟨s, l ::ₘ rest⟩ := Step.start hl

/-- A fresh node, and the requests of two groups for 6 of its tokens each. -/
def freshShared : NodeShared Nat := ⟨.init, .init, false, 0⟩

def firstSix : ResourceList Nat := ⟨⟨0, 0⟩, ⟨0, 6⟩⟩

def secondSix : ResourceList Nat := ⟨⟨1, 0⟩, ⟨0, 6⟩⟩

theorem freshShared_initial : sectionSystem.init ⟨freshShared, 0⟩ :=
  ⟨⟨rfl, rfl, rfl, rfl, rfl⟩, rfl⟩

/-- The first request is granted; the second is refused twice and about to be
queued when the first is freed, which finds the queue empty. -/
theorem run_free_slips :
    ∃ tr c, Run sectionSystem ⟨freshShared, 0⟩ tr c ∧
      c.calls = {.returned, .returned, .returned} ∧
      c.shared.tokens.front = some secondSix ∧
      c.shared.base.tokenInuse = 0 ∧ c.shared.base.tokenQuota = 10 := by
  have hrun := (Run.nil (S := sectionSystem) (s := ⟨freshShared, 0⟩)).snoc
    (sectionSystem_start (l := .check firstSix) (Or.inl ⟨_, rfl⟩))
    |>.snoc (SectionStep.move (.checkOk (by decide)))
    |>.snoc (SectionStep.move .charge) |>.snoc (SectionStep.move .toGot)
    |>.snoc (sectionSystem_start (l := .check secondSix) (Or.inl ⟨_, rfl⟩))
    |>.snoc (SectionStep.move (.checkPending (by decide)))
    |>.snoc (SectionStep.move (.lockAlloc (by decide)))
    |>.snoc (SectionStep.move (.recheckPending (by decide)))
    |>.snoc (sectionSystem_start (l := .free firstSix) (Or.inr ⟨_, rfl⟩))
    |>.snoc (SectionStep.move (.free (show _ = firstSix ::ₘ 0 by decide)))
    |>.snoc (SectionStep.move (.lookNone (by decide)))
    |>.snoc (Step.run_of_eq (Multiset.cons_swap _ _ _) .push)
    |>.snoc (SectionStep.move .unlock)
  exact ⟨_, _, hrun, rfl, rfl, rfl, rfl⟩

/-- On that run the second request is left waiting, with 10 tokens free. -/
theorem free_slips_before_push :
    ¬ ∀ (c₀ c : Config (NodeShared Nat) (NodeSection Nat))
        (tr : List (Transition (Config (NodeShared Nat) (NodeSection Nat))
          (Move (NodeSection Nat)))),
      sectionSystem.init c₀ → Run sectionSystem c₀ tr c →
      (∀ l ∈ c.calls, ¬ l.InProgress) → FrontBlocked c.shared.base c.shared.tokens := by
  intro h
  obtain ⟨tr, c, hrun, hCalls, hFront, hInuse, hQuota⟩ := run_free_slips
  have := h _ c tr freshShared_initial hrun
    (by simp [hCalls, NodeSection.InProgress]) secondSix hFront
  rw [hInuse, hQuota] at this
  revert this
  decide

def thirdSix : ResourceList Nat := ⟨⟨2, 0⟩, ⟨0, 6⟩⟩

/-- Here the free has given its tokens back, and not looked yet, when the second
request is queued: it finds it there, takes the lock after it and grants it. A
third request that comes in between waits for tokens that are not there. -/
theorem front_blocked_free_overlaps :
    ∃ tr c, Run sectionSystem ⟨freshShared, 0⟩ tr c ∧ c.shared.got = {secondSix} ∧
      c.shared.tokens.front = some thirdSix ∧ FrontBlocked c.shared.base c.shared.tokens := by
  have hrun := (Run.nil (S := sectionSystem) (s := ⟨freshShared, 0⟩)).snoc
    (sectionSystem_start (l := .check firstSix) (Or.inl ⟨_, rfl⟩))
    |>.snoc (SectionStep.move (.checkOk (by decide)))
    |>.snoc (SectionStep.move .charge) |>.snoc (SectionStep.move .toGot)
    |>.snoc (sectionSystem_start (l := .check secondSix) (Or.inl ⟨_, rfl⟩))
    |>.snoc (SectionStep.move (.checkPending (by decide)))
    |>.snoc (SectionStep.move (.lockAlloc (by decide)))
    |>.snoc (SectionStep.move (.recheckPending (by decide)))
    |>.snoc (sectionSystem_start (l := .free firstSix) (Or.inr ⟨_, rfl⟩))
    |>.snoc (SectionStep.move (.free (show _ = firstSix ::ₘ 0 by decide)))
    |>.snoc (Step.run_of_eq (Multiset.cons_swap _ _ _) .push)
    |>.snoc (Step.run_of_eq (Multiset.cons_swap _ _ _)
      (.lookSome (show _ = some secondSix from rfl)))
    |>.snoc (Step.run_of_eq (Multiset.cons_swap _ _ _) .unlock)
    |>.snoc (Step.run_of_eq (Multiset.cons_swap _ _ _) (.lockPump rfl))
    |>.snoc (SectionStep.move (.frontSome (show _ = some secondSix from rfl)))
    |>.snoc (SectionStep.move (.pumpCheckOk (by decide))) |>.snoc (SectionStep.move .pumpCharge)
    |>.snoc (sectionSystem_start (l := .check thirdSix) (Or.inl ⟨_, rfl⟩))
    |>.snoc (SectionStep.move (.checkPending (by decide)))
    |>.snoc (Step.run_of_eq (Multiset.cons_swap _ _ _) .pop)
    |>.snoc (SectionStep.move .pumpGot) |>.snoc (SectionStep.move (.frontNone (by decide)))
    |>.snoc (SectionStep.move .unlock)
    |>.snoc (Step.run_of_eq (Multiset.cons_swap _ _ _) (.lockAlloc rfl))
    |>.snoc (SectionStep.move (.recheckPending (by decide)))
    |>.snoc (SectionStep.move .push) |>.snoc (SectionStep.move .unlock)
  refine ⟨_, _, hrun, rfl, rfl, front_blocked_at_rest freshShared_initial hrun ?_ ?_⟩
  · simp only [List.nil_append, List.cons_append, List.forall_mem_cons, Watched, true_and]
    exact ⟨fun _ => by decide, fun hNone => absurd hNone (by decide), fun _ => by decide, by simp⟩
  · simp [NodeSection.InProgress]

end DatastorQos
