import Mathlib.Data.List.Basic

/-!
# Service — queues served from the front

A server takes the requests of a queue in their order. Each request it takes
changes its state, and with it what it can take next; it stops at the first
request it cannot take. What it took is the longest initial piece of the queue
it could take (`Longest`), and a server it simulates takes the same
(`Serves.simulate`).
-/

namespace DatastorQos.Service

structure Server (σ α : Type*) where
  fits : σ → α → Prop
  take : σ → α → σ

variable {σ τ α : Type*}

namespace Server

/-- The server can take all of these, one after the other. -/
def Serves (S : Server σ α) : σ → List α → Prop
  | _, [] => True
  | s, x :: l => S.fits s x ∧ S.Serves (S.take s x) l

/-- What taking them leaves behind. -/
def after (S : Server σ α) : σ → List α → σ := List.foldl S.take

@[simp] theorem after_nil (S : Server σ α) (s : σ) : S.after s [] = s := rfl

@[simp] theorem after_cons (S : Server σ α) (s : σ) (x : α) (l : List α) :
    S.after s (x :: l) = S.after (S.take s x) l := rfl

/-- `served` is an initial piece of the queue the server can take, and every
such piece is an initial piece of it. -/
structure Longest (S : Server σ α) (s : σ) (queue served : List α) : Prop where
  initial : served <+: queue
  serves  : S.Serves s served
  longest : ∀ l, l <+: queue → S.Serves s l → l <+: served

variable {S : Server σ α} {s : σ} {served rest : List α}

/-- What a server took before it met a request it could not take is the longest
piece. -/
theorem longest_of_blocked (hServes : S.Serves s served)
    (hBlocked : ∀ x ∈ rest.head?, ¬ S.fits (S.after s served) x) :
    S.Longest s (served ++ rest) served := by
  refine ⟨List.prefix_append _ _, hServes, ?_⟩
  induction served generalizing s with
  | nil =>
    intro l hl hl'
    cases l with
    | nil => exact List.prefix_rfl
    | cons y l =>
      obtain ⟨rest', hEq⟩ := hl
      have hHead : y ∈ rest.head? := by
        rw [List.nil_append] at hEq
        rw [← hEq]
        rfl
      exact absurd hl'.1 (hBlocked y hHead)
  | cons x served ih =>
    intro l hl hl'
    cases l with
    | nil => exact List.nil_prefix
    | cons y l =>
      obtain ⟨rfl, hRest⟩ := List.cons_prefix_cons.mp hl
      exact List.cons_prefix_cons.mpr ⟨rfl, ih hServes.2 hBlocked l hRest hl'.2⟩

/-- **Simulation rule.** `R` relates two states and the queue in front of them.
If related servers can take the same request, and stay related when they do,
what one takes of a queue the other takes too. -/
theorem Serves.simulate {A : Server τ α} {R : σ → τ → List α → Prop} {t : τ}
    (hStep : ∀ s t x l, R s t (x :: l) → S.fits s x →
      A.fits t x ∧ R (S.take s x) (A.take t x) l)
    (hR : R s t (served ++ rest)) (hServes : S.Serves s served) :
    A.Serves t served ∧ R (S.after s served) (A.after t served) rest := by
  induction served generalizing s t with
  | nil => exact ⟨trivial, hR⟩
  | cons x served ih =>
    obtain ⟨hFits, hR'⟩ := hStep s t x _ hR hServes.1
    obtain ⟨hServes', hAfter⟩ := ih hR' hServes.2
    exact ⟨⟨hFits, hServes'⟩, hAfter⟩

end Server

end DatastorQos.Service
