import Mathlib.Data.List.Basic

/-!
# Refine — machines that answer alike

A `Machine` takes operations and answers them. `C` refines `A` along a relation
of their states if related states give the same answer and lead to related
states; then whole runs give the same answers (`Refines.run`).

The operations need only be answered where they meet a condition of the user of
the machine, `Within`.
-/

namespace DatastorQos.Refine

variable {σ τ Op Out : Type*}

/-- `none` is an operation that does not come back. -/
structure Machine (σ Op Out : Type*) where
  step : σ → Op → Option (σ × Out)

namespace Machine

/-- One operation after the other, with all answers. -/
def run (M : Machine σ Op Out) : σ → List Op → Option (σ × List Out)
  | s, [] => some (s, [])
  | s, op :: ops => do
    let (s, out) ← M.step s op
    let (s, outs) ← M.run s ops
    return (s, out :: outs)

theorem run_append {M : Machine σ Op Out} {s s₁ s' : σ} {ops ops' : List Op} {outs outs' : List Out}
    (h : M.run s ops = some (s₁, outs)) (h' : M.run s₁ ops' = some (s', outs')) :
    M.run s (ops ++ ops') = some (s', outs ++ outs') := by
  induction ops generalizing s outs with
  | nil =>
    obtain ⟨rfl, rfl⟩ := Prod.mk.inj (Option.some.inj h)
    exact h'
  | cons op ops ih =>
    simp only [run, Option.bind_eq_bind, Option.bind_eq_some_iff, Option.pure_def] at h
    obtain ⟨⟨s₂, out⟩, hStep, ⟨s₃, outs₂⟩, hRest, heq⟩ := h
    obtain ⟨rfl, rfl⟩ := Prod.mk.inj (Option.some.inj heq)
    simp only [List.cons_append, run, hStep, ih hRest, Option.bind_eq_bind,
      Option.bind_some, Option.pure_def]

/-- The same machine, told more than it needs. -/
def comap {Op' : Type*} (f : Op' → Op) (M : Machine σ Op Out) : Machine σ Op' Out where
  step s op := M.step s (f op)

theorem run_comap {Op' : Type*} (f : Op' → Op) (M : Machine σ Op Out) (s : σ) (ops : List Op') :
    (M.comap f).run s ops = M.run s (ops.map f) := by
  induction ops generalizing s with
  | nil => rfl
  | cons op ops ih =>
    simp only [List.map_cons, run, ih]
    rfl

/-- Every operation meets the condition where it is made. -/
def Within (M : Machine σ Op Out) (Pre : σ → Op → Prop) : σ → List Op → Prop
  | _, [] => True
  | s, op :: ops => Pre s op ∧ ∀ s' out, M.step s op = some (s', out) → M.Within Pre s' ops

theorem Within.cons {M : Machine σ Op Out} {Pre : σ → Op → Prop} {s s' : σ} {op : Op} {out : Out}
    {ops : List Op} (hStep : M.step s op = some (s', out)) (hPre : Pre s op)
    (h : M.Within Pre s' ops) : M.Within Pre s (op :: ops) := by
  refine ⟨hPre, fun s₁ out₁ hStep₁ => ?_⟩
  obtain ⟨rfl, -⟩ := Prod.mk.inj (Option.some.inj (hStep.symm.trans hStep₁))
  exact h

end Machine

/-- From related states, `C` answers as `A` does, and stays related to it. -/
def Refines (C : Machine σ Op Out) (A : Machine τ Op Out) (R : σ → τ → Prop)
    (Pre : σ → Op → Prop) : Prop :=
  ∀ s t op, R s t → Pre s op →
    ∃ s' t' out, C.step s op = some (s', out) ∧ A.step t op = some (t', out) ∧ R s' t'

variable {C : Machine σ Op Out} {A : Machine τ Op Out} {R : σ → τ → Prop} {Pre : σ → Op → Prop}

/-- **Refinement rule.** What one step answers alike, a run answers alike. -/
theorem Refines.run (h : Refines C A R Pre) {ops : List Op} {s : σ} {t : τ} (hR : R s t)
    (hWithin : C.Within Pre s ops) :
    ∃ s' t' outs, C.run s ops = some (s', outs) ∧ A.run t ops = some (t', outs) ∧ R s' t' := by
  induction ops generalizing s t with
  | nil => exact ⟨s, t, [], rfl, rfl, hR⟩
  | cons op ops ih =>
    obtain ⟨hPre, hRest⟩ := hWithin
    obtain ⟨s₁, t₁, out, hC, hA, hR₁⟩ := h s t op hR hPre
    obtain ⟨s', t', outs, hCRun, hARun, hR'⟩ := ih hR₁ (hRest s₁ out hC)
    refine ⟨s', t', out :: outs, ?_, ?_, hR'⟩
    · simp only [Machine.run, hC, hCRun, Option.bind_eq_bind, Option.bind_some, Option.pure_def]
    · simp only [Machine.run, hA, hARun, Option.bind_eq_bind, Option.bind_some, Option.pure_def]

end DatastorQos.Refine
