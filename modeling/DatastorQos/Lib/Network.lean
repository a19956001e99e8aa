import Mathlib.Data.List.Basic
import Mathlib.Order.Basic

/-!
# Network — messages between two parties

A `Network` is what can become of the messages one party sends to another. It
makes no message up: what it delivers was sent (`inFlight_send`,
`inFlight_deliver`). Everything else is left to the network, which may lose,
copy, delay and reorder.

* `Network.unordered` — any message ever sent can be delivered at any time, any
  number of times, or never;
* `Network.ordered` — a queue that may lose a message, but neither copies nor
  overtakes.

A property of the messages in flight is kept by a delivery, and by a send of a
message that has it (`AllInFlight.send`, `AllInFlight.deliver`). In a queue
whose messages carry growing stamps they stay sorted (`Sorted.send`,
`Sorted.deliver`).
-/

namespace DatastorQos

variable {τ μ : Type*}

/-- `τ` is what the network holds. -/
structure Network (τ μ : Type*) where
  empty    : τ
  send     : τ → μ → τ → Prop
  deliver  : τ → μ → τ → Prop
  /-- the message may still be delivered -/
  InFlight : τ → μ → Prop
  not_inFlight_empty : ∀ m, ¬ InFlight empty m
  inFlight_send : ∀ {t t' m}, send t m t' → ∀ x, InFlight t' x → InFlight t x ∨ x = m
  inFlight_deliver : ∀ {t t' m}, deliver t m t' →
    InFlight t m ∧ ∀ x, InFlight t' x → InFlight t x

namespace Network

/-- Every message ever sent stays deliverable. -/
def unordered (μ : Type*) : Network (List μ) μ where
  empty := []
  send t m t' := t' = m :: t
  deliver t m t' := m ∈ t ∧ t' = t
  InFlight t m := m ∈ t
  not_inFlight_empty _ := List.not_mem_nil
  inFlight_send := by
    rintro t t' m rfl x hx
    exact (List.mem_cons.mp hx).symm
  inFlight_deliver := by
    rintro t t' m ⟨hMem, rfl⟩
    exact ⟨hMem, fun _ hx => hx⟩

/-- A queue, which may lose a message when it is sent. -/
def ordered (μ : Type*) : Network (List μ) μ where
  empty := []
  send t m t' := t' = t ++ [m] ∨ t' = t
  deliver t m t' := t = m :: t'
  InFlight t m := m ∈ t
  not_inFlight_empty _ := List.not_mem_nil
  inFlight_send := by
    rintro t t' m (rfl | rfl) x hx
    · simpa using hx
    · exact Or.inl hx
  inFlight_deliver := by
    rintro t t' m rfl
    exact ⟨List.mem_cons_self, fun _ hx => List.mem_cons_of_mem m hx⟩

variable {N : Network τ μ} {t t' : τ} {m : μ} {P Q : μ → Prop}

/-- Every message that may still be delivered has the property. -/
def AllInFlight (N : Network τ μ) (t : τ) (P : μ → Prop) : Prop := ∀ x, N.InFlight t x → P x

namespace AllInFlight

theorem empty (N : Network τ μ) (P : μ → Prop) : N.AllInFlight N.empty P :=
  fun x hx => absurd hx (N.not_inFlight_empty x)

theorem mono (h : N.AllInFlight t P) (hPQ : ∀ x, P x → Q x) : N.AllInFlight t Q :=
  fun x hx => hPQ x (h x hx)

theorem send (h : N.AllInFlight t P) (hm : P m) (hSend : N.send t m t') : N.AllInFlight t' P := by
  intro x hx
  rcases N.inFlight_send hSend x hx with hOld | rfl
  · exact h x hOld
  · exact hm

/-- A delivered message had the property, and those left have it. -/
theorem deliver (h : N.AllInFlight t P) (hDeliver : N.deliver t m t') :
    P m ∧ N.AllInFlight t' P := by
  obtain ⟨hMem, hLeft⟩ := N.inFlight_deliver hDeliver
  exact ⟨h m hMem, fun x hx => h x (hLeft x hx)⟩

end AllInFlight

-- ---------------------------------------------------------------------------
-- Stamps in a queue
-- ---------------------------------------------------------------------------

variable {β : Type*}

/-- The stamps of the queued messages do not fall from the front to the back,
from `low` to `high`. -/
structure Sorted [LE β] (stamp : μ → β) (low high : β) (t : List μ) : Prop where
  pairwise : t.Pairwise fun a b => stamp a ≤ stamp b
  within   : ∀ x ∈ t, low ≤ stamp x ∧ stamp x ≤ high
  low_le   : low ≤ high

namespace Sorted

variable [Preorder β] {stamp : μ → β} {low high low' high' : β} {q q' : List μ}

theorem nil (stamp : μ → β) (h : low ≤ high) : Sorted stamp low high [] :=
  ⟨.nil, fun _ hx => absurd hx List.not_mem_nil, h⟩

theorem widen (h : Sorted stamp low high q) (hLow : low' ≤ low) (hHigh : high ≤ high') :
    Sorted stamp low' high' q where
  pairwise := h.pairwise
  within _ hx := ⟨hLow.trans (h.within _ hx).1, (h.within _ hx).2.trans hHigh⟩
  low_le := hLow.trans (h.low_le.trans hHigh)

/-- A message stamped with the highest stamp so far goes to the back. -/
theorem send (h : Sorted stamp low high q) (hm : stamp m = high)
    (hSend : (ordered μ).send q m q') : Sorted stamp low high q' := by
  obtain rfl | rfl := hSend
  · refine ⟨List.pairwise_append.mpr ⟨h.pairwise, List.pairwise_singleton _ _, ?_⟩, ?_, h.low_le⟩
    · rintro a ha b hb
      rw [List.mem_singleton.mp hb, hm]
      exact (h.within a ha).2
    · refine List.forall_mem_append.mpr ⟨h.within, List.forall_mem_singleton.mpr ?_⟩
      rw [hm]
      exact ⟨h.low_le, le_refl high⟩
  · exact h

/-- The message at the front has the lowest stamp of all. -/
theorem deliver (h : Sorted stamp low high q) (hDeliver : (ordered μ).deliver q m q') :
    low ≤ stamp m ∧ Sorted stamp (stamp m) high q' := by
  obtain rfl : q = m :: q' := hDeliver
  obtain ⟨hFront, hRest⟩ := List.pairwise_cons.mp h.pairwise
  have hm := h.within m List.mem_cons_self
  refine ⟨hm.1, hRest, fun x hx => ⟨hFront x hx, ?_⟩, hm.2⟩
  exact (h.within x (List.mem_cons_of_mem m hx)).2

end Sorted

end Network

end DatastorQos
