import Mathlib.Algebra.Order.BigOperators.Group.Multiset
import Mathlib.Algebra.Order.BigOperators.Group.List
import DatastorQos.Lib.Interleave
import DatastorQos.App.BaseNode

/-!
# datastor_qos — concurrent grants and the tokens they charge

Any number of `try_alloc_from_base` and `free_to_base` calls run on one base
node. An allocation takes the lock twice: the read-locked section checks that
the cost fits, the write-locked section checks again and charges. The second
check has no `else`: if another call took the tokens in between, nothing is
charged and `QOS_ERROR_OK` is returned all the same.

* `tokenInuse_add_uncharged` — in every reachable state `token_inuse` falls
  short of what is held by exactly the costs granted without a charge;
* `grants_charged_iff` — so at rest it equals the outstanding grants iff every
  write-locked section of the run was entered with room for its cost;
* `two_allocs_charge_once` — two allocations of 6 under a quota of 10.
-/

namespace DatastorQos

open Runs Interleave

/-- One client's allocation, and the free of what it was granted. -/
inductive AllocCall where
  /-- called; the read-locked check comes next -/
  | checking (cost : ULong)
  /-- the check passed; the write-locked section comes next -/
  | charging (cost : ULong)
  /-- returned `QOS_ERROR_PENDING` -/
  | refused (cost : ULong)
  /-- returned `QOS_ERROR_OK`, not yet freed -/
  | granted (cost : ULong)
  /-- `free_to_base` called for an earlier grant -/
  | freeing (cost : ULong)
  | freed (cost : ULong)
  deriving DecidableEq, Repr

namespace AllocCall

def cost : AllocCall → ULong
  | checking c | charging c | refused c | granted c | freeing c | freed c => c

/-- The call is inside `try_alloc_from_base` or `free_to_base`. -/
def InProgress : AllocCall → Prop
  | checking _ | charging _ | freeing _ => True
  | refused _ | granted _ | freed _ => False

/-- The cost of a grant not yet given back to the node. -/
def held : AllocCall → ℕ
  | granted c | freeing c => c.toNat
  | _ => 0

/-- The cost of a grant that returned `QOS_ERROR_OK` and was not freed. -/
def outstanding : AllocCall → ℕ
  | granted c => c.toNat
  | _ => 0

/-- The cost of a grant, freed or not. -/
def everGranted : AllocCall → ℕ
  | granted c | freeing c | freed c => c.toNat
  | _ => 0

end AllocCall

/-- The atomic steps of `try_alloc_from_desc` and `free_to_desc`. -/
inductive AllocStep : DispatchBaseNode → AllocCall → DispatchBaseNode → AllocCall → Prop where
  | pass {b cost} : b.checkAllocFromDesc cost = .ok →
      AllocStep b (.checking cost) b (.charging cost)
  | refuse {b cost} : b.checkAllocFromDesc cost = .pending →
      AllocStep b (.checking cost) b (.refused cost)
  | charge {b cost} : AllocStep b (.charging cost) (b.chargeSection cost) (.granted cost)
  | callFree {b cost} : AllocStep b (.granted cost) b (.freeing cost)
  | free {b cost} : AllocStep b (.freeing cost) (b.freeToDesc cost) (.freed cost)

def allocProgram : Program DispatchBaseNode AllocCall where
  start l := ∃ cost, l = .checking cost
  step := AllocStep

/-- One base node, any quota, nothing in use. -/
def allocSystem : System (Config DispatchBaseNode AllocCall) (Move AllocCall) :=
  allocProgram.system fun b => b.tokenInuse = 0

abbrev AllocTransition := Transition (Config DispatchBaseNode AllocCall) (Move AllocCall)

/-- A write-locked section entered without room for its cost grants the cost
without charging it. -/
def unchargedBy (x : AllocTransition) : ℕ :=
  match x.act with
  | .run (.charging cost) _ => if x.pre.shared.Fits cost then 0 else cost.toNat
  | _ => 0

/-- If the step is the write-locked section of an allocation, the cost fits
when the section is entered, or there is nothing to charge. -/
def ChargeFits (x : AllocTransition) : Prop :=
  ∀ cost l', x.act = .run (.charging cost) l' → cost = 0 ∨ x.pre.shared.Fits cost

def uncharged (tr : List AllocTransition) : ℕ := (tr.map unchargedBy).sum

theorem uncharged_snoc (tr : List AllocTransition) (x : AllocTransition) :
    uncharged (tr ++ [x]) = uncharged tr + unchargedBy x := by
  simp [uncharged]

theorem unchargedBy_eq_zero_iff (x : AllocTransition) : unchargedBy x = 0 ↔ ChargeFits x := by
  obtain ⟨c, act, c'⟩ := x
  constructor
  · rintro h cost l' rfl
    simp only [unchargedBy] at h
    split at h
    · rename_i hfit
      exact Or.inr hfit
    · left
      exact BitVec.eq_of_toNat_eq (by simpa using h)
  · intro h
    unfold unchargedBy
    split
    · rename_i cost l' hact
      simp only at hact
      rcases h cost l' hact with rfl | hfit
      · simp
      · rw [if_pos hfit]
    · rfl

theorem uncharged_eq_zero_iff (tr : List AllocTransition) :
    uncharged tr = 0 ↔ ∀ x ∈ tr, ChargeFits x := by
  rw [uncharged, List.sum_eq_zero_iff]
  simp [unchargedBy_eq_zero_iff]

-- ---------------------------------------------------------------------------
-- What is held, what is charged
-- ---------------------------------------------------------------------------

theorem ULong.natCast_toNat (a : ULong) : ((a.toNat : ℕ) : ULong) = a := by
  simp

/-- In every reachable state, `token_inuse` and the costs granted without a
charge together make up (mod `2 ^ 64`) what the grants hold; and no more was
left uncharged than was ever granted. -/
theorem tokenInuse_add_uncharged {c₀ c : Config DispatchBaseNode AllocCall}
    {tr : List AllocTransition} (hinit : allocSystem.init c₀) (h : Run allocSystem c₀ tr c) :
    c.shared.tokenInuse + (uncharged tr : ULong) =
        ((c.calls.map AllocCall.held).sum : ULong) ∧
      uncharged tr ≤ (c.calls.map AllocCall.everGranted).sum := by
  induction h with
  | nil =>
    obtain ⟨hInuse, hCalls⟩ := hinit
    simp [uncharged, hInuse, hCalls]
  | @snoc _ _ tr act _ hst ih =>
    rw [uncharged_snoc]
    obtain ⟨ihEq, ihLe⟩ := ih
    cases hst with
    | start hl =>
      -- a call starts: nothing granted yet
      obtain ⟨cost, rfl⟩ := hl
      simp only [unchargedBy, Multiset.map_cons, Multiset.sum_cons] at ihEq ihLe ⊢
      exact ⟨by simpa [AllocCall.held] using ihEq, by simpa [AllocCall.everGranted] using ihLe⟩
    | @run b _ rest _ _ hstep =>
      simp only [Multiset.map_cons, Multiset.sum_cons] at ihEq ihLe ⊢
      cases hstep with
      | pass | refuse | callFree =>
        simp only [unchargedBy, AllocCall.held, AllocCall.everGranted, add_zero] at ihEq ihLe ⊢
        exact ⟨ihEq, ihLe⟩
      | @charge cost =>
        -- the write-locked section: charged if it fits, uncharged otherwise
        simp only [unchargedBy, AllocCall.held, AllocCall.everGranted, zero_add] at ihEq ihLe ⊢
        by_cases hfit : b.Fits cost
        · rw [if_pos hfit, DispatchBaseNode.chargeSection_tokenInuse hfit, Nat.add_zero]
          refine ⟨?_, by omega⟩
          simp only [Nat.cast_add]
          rw [← ihEq, ULong.natCast_toNat]
          ring
        · rw [if_neg hfit, DispatchBaseNode.chargeSection_of_not_fits hfit]
          refine ⟨?_, by omega⟩
          simp only [Nat.cast_add]
          rw [← ihEq, ULong.natCast_toNat]
          ring
      | @free cost =>
        -- a free takes its cost off both sides
        simp only [unchargedBy, AllocCall.held, AllocCall.everGranted, zero_add, add_zero,
          DispatchBaseNode.freeToDesc_tokenInuse] at ihEq ihLe ⊢
        refine ⟨?_, ihLe⟩
        rw [Nat.cast_add, ULong.natCast_toNat] at ihEq
        rw [show b.tokenInuse - cost + (uncharged tr : ULong) =
          b.tokenInuse + (uncharged tr : ULong) - cost by ring, ihEq]
        ring

theorem everGranted_le_cost (calls : Multiset AllocCall) :
    (calls.map AllocCall.everGranted).sum ≤ (calls.map fun l => l.cost.toNat).sum := by
  refine Multiset.sum_map_le_sum_map _ _ fun l _ => ?_
  cases l <;> simp [AllocCall.everGranted, AllocCall.cost]

theorem held_le_cost (calls : Multiset AllocCall) :
    (calls.map AllocCall.held).sum ≤ (calls.map fun l => l.cost.toNat).sum := by
  refine Multiset.sum_map_le_sum_map _ _ fun l _ => ?_
  cases l <;> simp [AllocCall.held, AllocCall.cost]

/-- With no call in progress, what is held is what is outstanding. -/
theorem held_eq_outstanding {calls : Multiset AllocCall} (h : ∀ l ∈ calls, ¬ l.InProgress) :
    (calls.map AllocCall.held).sum = (calls.map AllocCall.outstanding).sum := by
  congr 1
  refine Multiset.map_congr rfl fun l hl => ?_
  have := h l hl
  cases l <;> simp_all [AllocCall.held, AllocCall.outstanding, AllocCall.InProgress]

/-- **Every grant is charged**, at rest, in exactly the runs in which every
write-locked section was entered with room for its cost. Costs are assumed
small enough that no sum exceeds `2 ^ 63`. -/
theorem grants_charged_iff {c₀ c : Config DispatchBaseNode AllocCall}
    {tr : List AllocTransition} (hinit : allocSystem.init c₀) (h : Run allocSystem c₀ tr c)
    (hRest : ∀ l ∈ c.calls, ¬ l.InProgress)
    (hSmall : (c.calls.map fun l => l.cost.toNat).sum ≤ 2 ^ 63) :
    c.shared.tokenInuse.toNat = (c.calls.map AllocCall.outstanding).sum ↔
      ∀ x ∈ tr, ChargeFits x := by
  obtain ⟨hEq, hLe⟩ := tokenInuse_add_uncharged hinit h
  have hHeld := held_eq_outstanding hRest
  have hHeldLe := held_le_cost c.calls
  have hGrantedLe := everGranted_le_cost c.calls
  rw [← uncharged_eq_zero_iff, ← hHeld]
  rw [BitVec.natCast_eq_ofNat, BitVec.natCast_eq_ofNat] at hEq
  constructor
  · intro hSum
    have := congrArg BitVec.toNat hEq
    simp only [BitVec.toNat_add, BitVec.toNat_ofNat] at this
    omega
  · intro hZero
    rw [hZero] at hEq
    have := congrArg BitVec.toNat hEq
    simp only [BitVec.toNat_add, BitVec.toNat_ofNat] at this
    omega

/-- Two clients ask for 6 under a quota of 10; both checks run before either
write-locked section. -/
theorem run_two_allocs :
    ∃ tr c, Run allocSystem ⟨DispatchBaseNode.init, 0⟩ tr c ∧
      c.calls = {.granted 6, .granted 6} ∧ c.shared.tokenInuse = 6 := by
  have hrun := (Run.nil (S := allocSystem) (s := ⟨DispatchBaseNode.init, 0⟩)).snoc
    (Step.start ⟨6, rfl⟩) |>.snoc (Step.run (.pass (by decide)))
    |>.snoc (Step.start ⟨6, rfl⟩) |>.snoc (Step.run (.pass (by decide)))
    |>.snoc (Step.run .charge)
    |>.snoc (Step.run_of_eq (Multiset.cons_swap _ _ _) .charge)
  exact ⟨_, _, hrun, rfl, by decide⟩

/-- After that run 12 tokens are outstanding, and 6 are charged. -/
theorem two_allocs_charge_once :
    ¬ ∀ c₀ tr c, allocSystem.init c₀ → Run allocSystem c₀ tr c →
      (∀ l ∈ c.calls, ¬ l.InProgress) →
      (c.calls.map fun l => l.cost.toNat).sum ≤ 2 ^ 63 →
      c.shared.tokenInuse.toNat = (c.calls.map AllocCall.outstanding).sum := by
  intro h
  obtain ⟨tr, c, hrun, hCalls, hInuse⟩ := run_two_allocs
  have := h _ tr c ⟨rfl, rfl⟩ hrun (by simp [hCalls, AllocCall.InProgress])
    (by rw [hCalls]; decide)
  rw [hCalls, hInuse] at this
  revert this
  decide

/-- Allocations of 6 and 4, checked before either charges, fit both; the 6 are
given back. Every section is entered with room. -/
theorem grants_charged_two_allocs :
    ∃ tr c, Run allocSystem ⟨DispatchBaseNode.init, 0⟩ tr c ∧ c.calls = {.freed 6, .granted 4} ∧
      c.shared.tokenInuse = 4 ∧ ∀ x ∈ tr, ChargeFits x := by
  have hrun := (Run.nil (S := allocSystem) (s := ⟨DispatchBaseNode.init, 0⟩)).snoc
    (Step.start ⟨6, rfl⟩) |>.snoc (Step.run (.pass (by decide)))
    |>.snoc (Step.start ⟨4, rfl⟩) |>.snoc (Step.run (.pass (by decide)))
    |>.snoc (Step.run .charge)
    |>.snoc (Step.run_of_eq (Multiset.cons_swap _ _ _) .charge)
    |>.snoc (Step.run .callFree) |>.snoc (Step.run .free)
  exact ⟨_, _, hrun, rfl, by decide, (grants_charged_iff ⟨rfl, rfl⟩ hrun
    (by simp [AllocCall.InProgress]) (by decide)).mp (by decide)⟩

end DatastorQos
