import DatastorQos.Dispatcher.DispManager
import DatastorQos.Lib.Runs

/-!
# datastor_qos — runs of the dispatcher

The dispatcher as a system of sections, each run to completion. Any order of
sections is a run, so calls may interleave between them; every call that
returns is a run by itself (`resourceIncrease_run` and its siblings).
-/

namespace DatastorQos

open Runs

variable {Id : Type} {ops : IdOps Id}

/-- What the dispatcher does under its lock, one constructor for each section. -/
inductive DispSection (Id : Type) where
  | increase (cost : ULong)
  | reduce (cost : ULong)
  | online (id : Id)
  | offline (id : Id)
  /-- `node_rcvd`, and what it set free goes back to the pool -/
  | rcvd (id : Id) (a2d : App2Dispatch)
  | countClear
  | countTest
  | execute
  | rebalance
  | clearWaitIncrease

namespace DispManager

/-- `node_rcvd`, and `rcvd` as far as it frees tokens. -/
def rcvdSection (m : DispManager ops) (id : Id) (a2d : App2Dispatch) : Option (DispManager ops) := do
  match ← m.nodeRcvd id a2d with
  | (m, some (false, newFreeSize)) =>
    if newFreeSize ≠ 0 then some (m.tokensFree newFreeSize) else some m
  | (m, _) => some m

/-- What a section leaves behind, if it ends. -/
def SectionStep (m : DispManager ops) : DispSection Id → DispManager ops → Prop
  | .increase cost, m' => m' = m.increaseSection cost
  | .reduce cost, m' => m' = (m.reduceSection cost).1
  | .online id, m' => ∃ done, m.onlineSection id = some (m', done)
  | .offline id, m' => m.nodeOffline id = some m'
  | .rcvd id a2d, m' => m.rcvdSection id a2d = some m'
  | .countClear, m' => m' = { m with cntController := m.cntController.clear }
  | .countTest, m' => m' = { m with cntController := m.cntController.testCnt.1 }
  | .execute, m' => m.execute = some m'
  | .rebalance, m' => m.updateNodesTokenQuotaNew = some m'
  | .clearWaitIncrease, m' => ∃ fuel, m.tryClearWaitIncrease fuel = some m'

end DispManager

/-- Sections in any order, from a new dispatcher. -/
def dispSystem (ops : IdOps Id) : System (DispManager ops) (DispSection Id) where
  init m := ∃ tableLen maxNodeNum updateInterval minRsNum h,
    m = .init ops tableLen maxNodeNum updateInterval minRsNum h
  step m a m' := m.SectionStep a m'

abbrev DispTransition (ops : IdOps Id) := Transition (DispManager ops) (DispSection Id)

/-- Some sections lead from one state to the other. -/
def DispSteps (m m' : DispManager ops) : Prop := ∃ tr, Run (dispSystem ops) m tr m'

namespace DispSteps

variable {m m₁ m' : DispManager ops} {fuel : Nat}

theorem refl (m : DispManager ops) : DispSteps m m := ⟨[], .nil⟩

theorem trans (h : DispSteps m m₁) (h' : DispSteps m₁ m') : DispSteps m m' := by
  obtain ⟨tr, hRun⟩ := h
  obtain ⟨tr', hRun'⟩ := h'
  exact ⟨tr ++ tr', hRun.append hRun'⟩

theorem single {a : DispSection Id} (h : m.SectionStep a m') : DispSteps m m' := ⟨_, .single h⟩

/-- A rebalance, if one is due, and then the waiting nodes are served. -/
theorem updatePolicy {isDirect : Bool} (h : m.updatePolicy fuel isDirect = some m') :
    DispSteps m m' := by
  unfold DispManager.updatePolicy at h
  split at h
  · obtain ⟨m₂, hExecute, hClear⟩ := Option.bind_eq_some_iff.mp h
    exact (single (a := .countClear) rfl).trans
      ((single (a := .execute) hExecute).trans (single (a := .clearWaitIncrease) ⟨fuel, hClear⟩))
  · have hTest := single (m := m) (a := .countTest) rfl
    split at h
    · rename_i c hc
      obtain rfl := Option.some.inj h
      rw [hc] at hTest
      exact hTest
    · rename_i c hc
      rw [hc] at hTest
      obtain ⟨m₂, hExecute, hClear⟩ := Option.bind_eq_some_iff.mp h
      exact hTest.trans
        ((single (a := .execute) hExecute).trans (single (a := .clearWaitIncrease) ⟨fuel, hClear⟩))

/-- The pool grows, and the policy is updated. -/
theorem resourceIncrease {cost : ULong} (h : m.resourceIncrease fuel cost = some m') :
    DispSteps m m' :=
  (single (a := .increase cost) rfl).trans (updatePolicy h)

/-- The pool shrinks, and the policy is updated; or it could not shrink. -/
theorem resourceReduce {cost : ULong} (h : m.resourceReduce fuel cost = some m') :
    DispSteps m m' := by
  have hReduce := single (m := m) (a := .reduce cost) rfl
  unfold DispManager.resourceReduce at h
  split at h
  · rename_i m₂ heq
    rw [heq] at hReduce
    exact hReduce.trans (updatePolicy h)
  · rename_i m₂ heq
    rw [heq] at hReduce
    exact Option.some.inj h ▸ hReduce

/-- The node joins, and the policy is updated; or there was no room for it. -/
theorem nodeOnline {id : Id} (h : m.nodeOnline fuel id = some m') : DispSteps m m' := by
  obtain ⟨⟨m₂, done⟩, hOnline, h⟩ := Option.bind_eq_some_iff.mp h
  have hStep := single (a := .online id) ⟨done, hOnline⟩
  cases done with
  | true => exact hStep.trans (updatePolicy h)
  | false => exact Option.some.inj h ▸ hStep

/-- This is a section of its own. -/
theorem nodeOffline {id : Id} (h : m.nodeOffline id = some m') : DispSteps m m' :=
  single (a := .offline id) h

/-- An id that is not there comes online first. -/
theorem checkOnline {id : Id} (h : m.checkOnline fuel id = some m') : DispSteps m m' := by
  unfold DispManager.checkOnline at h
  split at h
  · exact Option.some.inj h ▸ refl m
  · exact nodeOnline h

/-- A message never asks for a reset. -/
theorem nodeRcvd_isReset {id : Id} {a2d : App2Dispatch} {isReset : Bool} {newFreeSize : ULong}
    (h : m.nodeRcvd id a2d = some (m₁, some (isReset, newFreeSize))) : isReset = false := by
  unfold DispManager.nodeRcvd at h
  split at h
  · cases h
  · obtain ⟨node, -, h⟩ := Option.bind_eq_some_iff.mp h
    have hReset := node.rcvd_isReset a2d 0
    simp only [Option.pure_def, Option.some.injEq, Prod.mk.injEq] at h
    exact h.2.1.symm.trans hReset

/-- The node comes online if it has to, the message is taken, and what was given
back serves those that wait. -/
theorem rcvd {id : Id} {a2d : App2Dispatch} (h : m.rcvd fuel id a2d = some m') :
    DispSteps m m' := by
  obtain ⟨m₁, hCheck, h⟩ := Option.bind_eq_some_iff.mp h
  refine (checkOnline hCheck).trans ?_
  obtain ⟨⟨m₂, found⟩, hRcvd, h⟩ := Option.bind_eq_some_iff.mp h
  have hSection : ∀ m₃, m₁.rcvdSection id a2d = some m₃ → DispSteps m₁ m₃ :=
    fun m₃ hStep => single (a := .rcvd id a2d) hStep
  simp only [DispManager.rcvdSection, hRcvd, Option.bind_eq_bind, Option.bind_some] at hSection
  obtain _ | ⟨isReset, newFreeSize⟩ := found
  · exact Option.some.inj h ▸ hSection m₂ rfl
  · obtain rfl := nodeRcvd_isReset hRcvd
    simp only [Bool.false_eq_true, if_false] at h
    split at h
    · rename_i hFree
      exact (hSection _ (if_pos hFree)).trans (single (a := .clearWaitIncrease) ⟨fuel, h⟩)
    · rename_i hFree
      exact (hSection _ (if_neg hFree)).trans (updatePolicy h)

end DispSteps

-- ---------------------------------------------------------------------------
-- Calls
-- ---------------------------------------------------------------------------

/-- The calls that move tokens, and the two parts of `update_policy`. -/
inductive DispCall (Id : Type) where
  | resourceIncrease (cost : ULong)
  | resourceReduce (cost : ULong)
  | nodeOnline (id : Id)
  | nodeOffline (id : Id)
  /-- `a2d` is what the local variable holds -/
  | rcvd (id : Id) (a2d : App2Dispatch)
  | rebalance
  | clearWaitIncrease

def DispCall.apply (fuel : Nat) (m : DispManager ops) : DispCall Id → Option (DispManager ops)
  | .resourceIncrease cost => m.resourceIncrease fuel cost
  | .resourceReduce cost => m.resourceReduce fuel cost
  | .nodeOnline id => m.nodeOnline fuel id
  | .nodeOffline id => m.nodeOffline id
  | .rcvd id a2d => m.rcvd fuel id a2d
  | .rebalance => m.updateNodesTokenQuotaNew
  | .clearWaitIncrease => m.tryClearWaitIncrease fuel

/-- The dispatcher, one call after the other. -/
def dispCallSystem (ops : IdOps Id) : System (DispManager ops) (DispCall Id) where
  init := (dispSystem ops).init
  step m call m' := ∃ fuel, call.apply fuel m = some m'

/-- **A call** is a run of its sections. -/
theorem DispSteps.call {m m' : DispManager ops} {call : DispCall Id} {fuel : Nat}
    (h : call.apply fuel m = some m') : DispSteps m m' := by
  cases call with
  | resourceIncrease cost => exact DispSteps.resourceIncrease h
  | resourceReduce cost => exact DispSteps.resourceReduce h
  | nodeOnline id => exact DispSteps.nodeOnline h
  | nodeOffline id => exact DispSteps.nodeOffline h
  | rcvd id a2d => exact DispSteps.rcvd h
  | rebalance => exact DispSteps.single (a := .rebalance) h
  | clearWaitIncrease => exact DispSteps.single (a := .clearWaitIncrease) ⟨fuel, h⟩

/-- A run of calls is a run of sections. -/
theorem dispSteps_of_calls {m m' : DispManager ops}
    {tr : List (Transition (DispManager ops) (DispCall Id))}
    (hRun : Run (dispCallSystem ops) m tr m') : DispSteps m m' := by
  induction hRun with
  | nil => exact .refl m
  | snoc _ hStep ih =>
    obtain ⟨fuel, h⟩ := hStep
    exact ih.trans (.call h)

/-- The state after a call that returns. -/
def DispManager.after (m : DispManager ops) (call : DispCall Id) (fuel : Nat)
    (h : (call.apply fuel m).isSome = true) : DispManager ops :=
  (call.apply fuel m).get h

theorem dispCallSystem_step (m : DispManager ops) (call : DispCall Id) (fuel : Nat)
    (h : (call.apply fuel m).isSome = true) :
    (dispCallSystem ops).step m call (m.after call fuel h) :=
  ⟨fuel, (Option.some_get h).symm⟩

end DatastorQos
