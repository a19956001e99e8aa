import DatastorQos.App.Node
import DatastorQos.Dispatcher.AppNode
import DatastorQos.Lib.Apportion
import DatastorQos.Lib.Runs

/-!
# datastor_qos — the reported pressure

A node reports the demand queued at it, and the dispatcher weighs its apps by
it. `press` is kept as a running sum, travels in a bit-field and is stored on
the dispatcher's side.

* `pressEq_of_run` — the running sum is right after any queue operations;
* `press_reported_iff` — what is reported is the queued demand exactly if it is
  below `2 ^ 16`: in `PRESS_VAL_BIT` the subtraction binds before the shift, so
  the field has 16 bits where 62 are meant.
-/

namespace DatastorQos

open Apportion Runs

variable {Id : Type}

/-- What the queued requests ask for. -/
def NodereqList.demand (tokens : NodereqList Id) : ℕ := total (fun rs => rs.rs.cost) tokens.tokenList

/-- Where the sum is one word, `press` is the demand. -/
theorem NodereqList.PressEq.toNat_press {tokens : NodereqList Id} (h : tokens.PressEq)
    (hSum : tokens.demand < 2 ^ 62) : tokens.press.toNat = tokens.demand := by
  have hNoWrap : tokens.demand < 2 ^ 64 := by omega
  unfold PressEq at h
  rw [h, toNat_sum]
  exact Nat.mod_eq_of_lt hNoWrap

theorem NodereqList.getPress_type (tokens : NodereqList Id) (p : PressT) :
    (tokens.getPress p).type = pressTypeFifo := by
  unfold getPress
  rw [PressT.type_setFifoDepth, PressT.type_setType]

/-- The depth that is sent is `press` modulo `2 ^ 16`. -/
theorem NodereqList.toNat_getPress_fifoDepth (tokens : NodereqList Id) (p : PressT) :
    (tokens.getPress p).fifoDepth.toNat = tokens.press.toNat % 2 ^ 16 :=
  PressT.toNat_fifoDepth_setFifoDepth (p.setType pressTypeFifo) tokens.press

-- ---------------------------------------------------------------------------
-- Queue operations
-- ---------------------------------------------------------------------------

inductive QueueOp (Id : Type) where
  | pushBack (rs : ResourceList Id)
  | popFront
  | erase (rs : ResourceList Id)
  | popAll

variable [DecidableEq Id]

def QueueOp.apply (tokens : NodereqList Id) : QueueOp Id → NodereqList Id
  | .pushBack rs => tokens.pushBack rs
  | .popFront => tokens.popFront
  | .erase rs => tokens.erase rs
  | .popAll => tokens.popAll.1

/-- Only a queued element is erased. -/
def QueueOp.Legal (tokens : NodereqList Id) : QueueOp Id → Prop
  | .erase rs => rs ∈ tokens.tokenList
  | _ => True

def queueSystem (Id : Type) [DecidableEq Id] : System (NodereqList Id) (QueueOp Id) where
  init tokens := tokens = .init
  step tokens op tokens' := op.Legal tokens ∧ tokens' = op.apply tokens

theorem QueueOp.pressEq {tokens : NodereqList Id} {op : QueueOp Id} (h : tokens.PressEq)
    (hLegal : op.Legal tokens) : (op.apply tokens).PressEq := by
  cases op with
  | pushBack rs => exact h.pushBack rs
  | popFront => exact h.popFront
  | erase rs => exact h.erase hLegal
  | popAll => exact h.popAll

theorem pressEq_of_run {tokens₀ tokens : NodereqList Id}
    {tr : List (Transition (NodereqList Id) (QueueOp Id))} (hInit : (queueSystem Id).init tokens₀)
    (hRun : Run (queueSystem Id) tokens₀ tr tokens) : tokens.PressEq := by
  refine hRun.invariant (fun t op t' h hStep => ?_) (hInit ▸ NodereqList.pressEq_init)
  obtain ⟨hLegal, rfl⟩ := hStep
  exact QueueOp.pressEq h hLegal

-- ---------------------------------------------------------------------------
-- What is reported
-- ---------------------------------------------------------------------------

/-- The queued demand reaches the dispatcher: it is what `get_press` returns, as
a press of type fifo, what `get_protocol` sends, and what the node of the app
has after a message of its version. -/
structure Reported (tokens : NodereqList Id) : Prop where
  type   : ∀ p, (tokens.getPress p).type = pressTypeFifo
  depth  : ∀ p, (tokens.getPress p).fifoDepth.toNat = tokens.demand
  sent   : ∀ (n : DispatchNode Id) p, n.lheadNodereq = tokens →
    (n.getProtocol p).press = tokens.getPress p
  stored : ∀ (n : DispatchNode Id) p (node : AppNode) freeSize, n.lheadNodereq = tokens →
    node.version = n.baseNode.version →
      (node.rcvd (n.getProtocol p) freeSize).1.press.toNat = tokens.demand

/-- **The reported pressure** is the queued demand exactly below `2 ^ 16`. -/
theorem press_reported_iff {tokens₀ tokens : NodereqList Id}
    {tr : List (Transition (NodereqList Id) (QueueOp Id))} (hInit : (queueSystem Id).init tokens₀)
    (hRun : Run (queueSystem Id) tokens₀ tr tokens) (hSum : tokens.demand < 2 ^ 62) :
    Reported tokens ↔ tokens.demand < 2 ^ 16 := by
  have hPress := (pressEq_of_run hInit hRun).toNat_press hSum
  constructor
  · intro hReported
    have hDepth := hReported.depth 0
    rw [NodereqList.toNat_getPress_fifoDepth] at hDepth
    omega
  · intro hFits
    have hDepth : ∀ p, (tokens.getPress p).fifoDepth.toNat = tokens.demand := by
      intro p
      rw [NodereqList.toNat_getPress_fifoDepth]
      omega
    refine ⟨tokens.getPress_type, hDepth, ?_, ?_⟩
    · rintro n p rfl
      rfl
    · rintro n p node freeSize rfl hVersion
      rw [node.rcvd_press freeSize (show node.version = (n.getProtocol p).version from hVersion)]
      exact hDepth p

section FewRequests

/-- One request in the queue. -/
def oneQueued (cost : ULong) : NodereqList ℕ := NodereqList.init.pushBack ⟨⟨0, 0⟩, ⟨1, cost⟩⟩

theorem run_oneQueued (cost : ULong) : ∃ tr, Run (queueSystem ℕ) .init tr (oneQueued cost) := by
  have hStep : (queueSystem ℕ).step .init (.pushBack ⟨⟨0, 0⟩, ⟨1, cost⟩⟩) (oneQueued cost) :=
    ⟨trivial, rfl⟩
  exact ⟨_, Run.single hStep⟩

/-- Of three requests the first is served and the second is erased; what the third
asks for is reported. -/
theorem press_reported_one_left : ∃ tokens tr, Run (queueSystem ℕ) .init tr tokens ∧
    tokens.demand = 25000 ∧ Reported tokens := by
  have hPush : ∀ tokens rs, (queueSystem ℕ).step tokens (.pushBack rs) (tokens.pushBack rs) :=
    fun _ _ => ⟨trivial, rfl⟩
  have hPop : ∀ tokens, (queueSystem ℕ).step tokens .popFront tokens.popFront :=
    fun _ => ⟨trivial, rfl⟩
  have hErase : ∀ tokens rs, rs ∈ tokens.tokenList →
      (queueSystem ℕ).step tokens (.erase rs) (tokens.erase rs) := fun _ _ hIn => ⟨hIn, rfl⟩
  have hRun := ((((Run.nil.snoc (hPush .init ⟨⟨0, 0⟩, ⟨1, 40000⟩⟩)).snoc
    (hPush _ ⟨⟨0, 1⟩, ⟨1, 3⟩⟩)).snoc (hPush _ ⟨⟨1, 0⟩, ⟨1, 25000⟩⟩)).snoc (hPop _)).snoc
    (hErase _ ⟨⟨0, 1⟩, ⟨1, 3⟩⟩ List.mem_cons_self)
  exact ⟨_, _, hRun, by decide, (press_reported_iff rfl hRun (by decide)).mpr (by decide)⟩

/-- A demand of `2 ^ 16` tokens is reported as none. -/
theorem large_demand_is_not_reported :
    ¬ ∀ (tokens₀ tokens : NodereqList ℕ) (tr : List (Transition (NodereqList ℕ) (QueueOp ℕ))),
      (queueSystem ℕ).init tokens₀ → Run (queueSystem ℕ) tokens₀ tr tokens →
      tokens.demand < 2 ^ 62 → Reported tokens := by
  intro hAlways
  obtain ⟨tr, hRun⟩ := run_oneQueued 65536
  have hDepth := (hAlways _ _ tr rfl hRun (by decide)).depth 0
  revert hDepth
  decide

end FewRequests

end DatastorQos
