import DatastorQos.Lib.Interleave
import DatastorQos.Dispatcher.Conservation
import DatastorQos.Dispatcher.WaitIncrease

/-!
# datastor_qos — the fence executor under concurrent calls

The model of `fence_executor.c`: any number of `execute` calls on one executor,
with the start and the end of `func` as separate steps. A call starts with the
compare-and-swap of `is_exe`, which sets the flag or finds it set; no code
resets it.

* `executing_add_ran` — the calls inside `func` and those that ran it are one
  together if the flag is set, and none if it is not;
* `fence_excludes_iff` — so two executions never overlap, but a call that
  starts when another has run `func` to its end runs nothing; for the
  dispatcher, only the first `execute` rebalances.
-/

namespace DatastorQos

open Runs Interleave

variable {Id : Type} {ops : IdOps Id}

/-- `fence_executor_t`, without `func`. -/
structure FenceExecutor where
  isExe : Bool
  deriving DecidableEq, Repr

namespace FenceExecutor

/-- `fence_executor_init`. -/
def init : FenceExecutor := ⟨false⟩

/-- `__sync_bool_compare_and_swap(&executor->is_exe, false, true)`. -/
def compareAndSwap (e : FenceExecutor) : FenceExecutor × Bool :=
  if e.isExe = false then (⟨true⟩, true) else (e, false)

/-- How often the flag was set: once or never. -/
def entered (e : FenceExecutor) : ℕ := if e.isExe then 1 else 0

end FenceExecutor

/-- One call of `execute`. -/
inductive ExecuteCall where
  /-- the compare-and-swap comes next -/
  | called
  /-- inside `func` -/
  | executing
  | returned (ran : Bool)
  deriving DecidableEq, Repr

/-- The steps of `execute`. -/
inductive ExecuteStep : FenceExecutor → ExecuteCall → FenceExecutor → ExecuteCall → Prop where
  | start {e} : ExecuteStep e .called e.compareAndSwap.1
      (if e.compareAndSwap.2 then .executing else .returned false)
  | finish {e} : ExecuteStep e .executing e (.returned true)

def executeProgram : Program FenceExecutor ExecuteCall where
  start l := l = .called
  step := ExecuteStep

/-- One executor after `fence_executor_init`. -/
def fenceSystem : System (Config FenceExecutor ExecuteCall) (Move ExecuteCall) :=
  executeProgram.system fun e => e = .init

abbrev FenceTransition := Transition (Config FenceExecutor ExecuteCall) (Move ExecuteCall)

/-- The executions of `func` in progress. -/
def executing (calls : Multiset ExecuteCall) : ℕ := calls.count .executing

/-- The executions of `func` that have ended. -/
def ran (calls : Multiset ExecuteCall) : ℕ := calls.count (.returned true)

theorem executing_cons (l : ExecuteCall) (calls : Multiset ExecuteCall) :
    executing (l ::ₘ calls) = executing calls + if .executing = l then 1 else 0 :=
  Multiset.count_cons _ _ _

theorem ran_cons (l : ExecuteCall) (calls : Multiset ExecuteCall) :
    ran (l ::ₘ calls) = ran calls + if .returned true = l then 1 else 0 :=
  Multiset.count_cons _ _ _

/-- A call that starts while none is inside `func` runs it. -/
def StartRuns (x : FenceTransition) : Prop :=
  ∀ l', x.act = .run .called l' → executing x.pre.calls = 0 → l' = .executing

/-- A call starts only where no call has run `func` to its end. -/
def StartsBeforeEnd (x : FenceTransition) : Prop :=
  ∀ l', x.act = .run .called l' → ran x.pre.calls = 0

-- ---------------------------------------------------------------------------
-- What one step does
-- ---------------------------------------------------------------------------

/-- A call starts: it enters `func` if the flag was not set, and returns if it
was. -/
theorem ExecuteStep.called_cases {e e' : FenceExecutor} {l' : ExecuteCall}
    (h : ExecuteStep e .called e' l') :
    (e.isExe = false ∧ e'.isExe = true ∧ l' = .executing) ∨
      (e.isExe = true ∧ e' = e ∧ l' = .returned false) := by
  cases h with
  | start =>
    cases hExe : e.isExe with
    | false => left; simp [FenceExecutor.compareAndSwap, hExe]
    | true => right; simp [FenceExecutor.compareAndSwap, hExe]

theorem ExecuteStep.executing_cases {e e' : FenceExecutor} {l' : ExecuteCall}
    (h : ExecuteStep e .executing e' l') : e' = e ∧ l' = .returned true := by
  cases h with
  | finish => exact ⟨rfl, rfl⟩

/-- A call that has returned does nothing more. -/
theorem ExecuteStep.not_returned {e e' : FenceExecutor} {l' : ExecuteCall} {b : Bool} :
    ¬ ExecuteStep e (.returned b) e' l' := by
  rintro ⟨⟩

/-- The calls inside `func` and those that ran it, together, are the one that
set the flag; until it is set every call is still to start. -/
structure OneEntered (e : FenceExecutor) (calls : Multiset ExecuteCall) : Prop where
  entered : executing calls + ran calls = e.entered
  unset   : e.isExe = false → ∀ l ∈ calls, l = .called

theorem OneEntered.start {e : FenceExecutor} {calls : Multiset ExecuteCall}
    (h : OneEntered e calls) : OneEntered e (.called ::ₘ calls) where
  entered := by simpa [executing_cons, ran_cons] using h.entered
  unset hExe l hl := by
    rcases Multiset.mem_cons.mp hl with rfl | hl
    · rfl
    · exact h.unset hExe l hl

theorem OneEntered.step {e e' : FenceExecutor} {l l' : ExecuteCall} {rest : Multiset ExecuteCall}
    (h : OneEntered e (l ::ₘ rest)) (hStep : ExecuteStep e l e' l') :
    OneEntered e' (l' ::ₘ rest) := by
  have hEntered := h.entered
  cases l with
  | called =>
    obtain ⟨hExe, hExe', rfl⟩ | ⟨hExe, rfl, rfl⟩ := hStep.called_cases
    · -- the flag was not set: this call is the first inside `func`
      refine ⟨?_, fun hUnset => by simp [hExe'] at hUnset⟩
      simp only [executing_cons, ran_cons, FenceExecutor.entered, hExe, hExe'] at hEntered ⊢
      simp only [reduceCtorEq, if_false, if_true] at hEntered ⊢
      omega
    · refine ⟨?_, fun hUnset => by simp [hExe] at hUnset⟩
      simpa [executing_cons, ran_cons] using hEntered
  | executing =>
    obtain ⟨rfl, rfl⟩ := hStep.executing_cases
    refine ⟨?_, fun hUnset => ?_⟩
    · simp only [executing_cons, ran_cons, reduceCtorEq, if_false, if_true] at hEntered ⊢
      omega
    · cases h.unset hUnset _ (Multiset.mem_cons_self _ _)
  | returned b => exact absurd hStep ExecuteStep.not_returned

/-- **The flag counts.** In every reachable state the executions of `func`, in
progress or ended, are one if the flag is set and none otherwise. -/
theorem executing_add_ran {c : Config FenceExecutor ExecuteCall} (h : Reachable fenceSystem c) :
    OneEntered c.shared c.calls := by
  refine reachable_invariant ?_ ?_ ?_ h
  · rintro e rfl
    exact ⟨rfl, by simp⟩
  · rintro e calls l hI rfl
    exact hI.start
  · intro e e' l l' rest hI hStep
    exact hI.step hStep

/-- In any reachable state at most one execution is in progress or has ended. -/
theorem OneEntered.le_one {e : FenceExecutor} {calls : Multiset ExecuteCall}
    (h : OneEntered e calls) : executing calls + ran calls ≤ 1 := by
  rw [h.entered, FenceExecutor.entered]
  split <;> omega

/-- A call starts from a reachable state: with none inside `func`, it runs `func`
exactly if no call has run it before. -/
theorem OneEntered.start_runs_iff {e e' : FenceExecutor} {l' : ExecuteCall}
    {rest : Multiset ExecuteCall} (h : OneEntered e (.called ::ₘ rest))
    (hStep : ExecuteStep e .called e' l') :
    (executing (.called ::ₘ rest) = 0 → l' = .executing) ↔ ran (.called ::ₘ rest) = 0 := by
  have hEntered := h.entered
  have hOne := h.le_one
  obtain ⟨hExe, -, rfl⟩ | ⟨hExe, -, rfl⟩ := hStep.called_cases
  · have : ran (.called ::ₘ rest) = 0 := by
      simp only [FenceExecutor.entered, hExe] at hEntered
      simp only [Bool.false_eq_true, if_false] at hEntered
      omega
    simp [this]
  · simp only [FenceExecutor.entered, hExe, if_true] at hEntered
    simp only [reduceCtorEq, imp_false]
    omega

theorem startRuns_iff {c c' : Config FenceExecutor ExecuteCall} {a : Move ExecuteCall}
    (h : OneEntered c.shared c.calls) (hStep : fenceSystem.step c a c') :
    StartRuns ⟨c, a, c'⟩ ↔ StartsBeforeEnd ⟨c, a, c'⟩ := by
  cases hStep with
  | start hl => simp [StartRuns, StartsBeforeEnd]
  | @run e e' rest l l' hRun =>
    cases l with
    | called =>
      have := h.start_runs_iff hRun
      simpa [StartRuns, StartsBeforeEnd] using this
    | executing | returned b => simp [StartRuns, StartsBeforeEnd]

-- ---------------------------------------------------------------------------
-- Whole runs
-- ---------------------------------------------------------------------------

theorem OneEntered.of_init {c : Config FenceExecutor ExecuteCall} (h : fenceSystem.init c) :
    OneEntered c.shared c.calls :=
  executing_add_ran (.init h)

theorem OneEntered.of_step {c c' : Config FenceExecutor ExecuteCall} {a : Move ExecuteCall}
    (h : OneEntered c.shared c.calls) (hStep : fenceSystem.step c a c') :
    OneEntered c'.shared c'.calls := by
  cases hStep with
  | start hl => exact hl ▸ h.start
  | run hRun => exact h.step hRun

/-- No state of a run has two executions in progress. -/
theorem executions_exclude {c₀ c : Config FenceExecutor ExecuteCall} {tr : List FenceTransition}
    (hInit : fenceSystem.init c₀) (hRun : Run fenceSystem c₀ tr c) :
    ∀ x ∈ tr, executing x.post.calls ≤ 1 := by
  refine hRun.forall_transition (I := fun c => OneEntered c.shared c.calls) ?_ (.of_init hInit)
  intro s a t hI hStep
  have hI' := hI.of_step hStep
  exact ⟨hI', Nat.le_trans (Nat.le_add_right _ _) hI'.le_one⟩

/-- Every call that starts while none is in progress runs `func`, exactly if
none starts after one has run it to its end. -/
theorem starts_run_iff {c₀ c : Config FenceExecutor ExecuteCall} {tr : List FenceTransition}
    (hInit : fenceSystem.init c₀) (hRun : Run fenceSystem c₀ tr c) :
    (∀ x ∈ tr, StartRuns x) ↔ ∀ x ∈ tr, StartsBeforeEnd x := by
  refine (hRun.forall_iff (I := fun c => OneEntered c.shared c.calls) ?_ (.of_init hInit)).1
  intro s a t hI hStep
  exact ⟨startRuns_iff hI hStep, fun _ => hI.of_step hStep⟩

/-- Once all calls have returned, each of them ran `func` exactly if there was
at most one. -/
theorem ran_each_iff {c : Config FenceExecutor ExecuteCall} (h : Reachable fenceSystem c)
    (hRest : ∀ l ∈ c.calls, ∃ b, l = .returned b) :
    ran c.calls = c.calls.card ↔ c.calls.card ≤ 1 := by
  have hI := executing_add_ran h
  have hOne := hI.le_one
  constructor
  · intro hEach
    omega
  · intro hCard
    rcases Nat.le_one_iff_eq_zero_or_eq_one.mp hCard with hNone | hSingle
    · rw [Multiset.card_eq_zero.mp hNone]
      rfl
    · -- the only call has returned, so it found the flag as it was initialised
      obtain ⟨l, hl⟩ := Multiset.card_eq_one.mp hSingle
      obtain ⟨b, rfl⟩ := hRest l (by simp [hl])
      have hSet : c.shared.isExe = true := by
        by_contra hUnset
        cases hI.unset (by simpa using hUnset) (.returned b) (by simp [hl])
      have hEntered := hI.entered
      rw [hl] at hEntered ⊢
      simp only [FenceExecutor.entered, hSet, if_true] at hEntered
      simpa [executing, ran] using hEntered

-- ---------------------------------------------------------------------------
-- The dispatcher's executor
-- ---------------------------------------------------------------------------

namespace DispManager

variable {m m' : DispManager ops} {id : Id}

/-- `manager->executor`. -/
def executor (m : DispManager ops) : FenceExecutor := ⟨m.isExe⟩

/-- `execute` of the dispatcher is the compare-and-swap, and
`update_nodes_token_quota_new` where it succeeds. -/
theorem execute_eq (m : DispManager ops) : m.execute =
    if m.executor.compareAndSwap.2 then
      { m with isExe := m.executor.compareAndSwap.1.isExe }.updateNodesTokenQuotaNew
    else some m := by
  unfold execute executor FenceExecutor.compareAndSwap
  cases hExe : m.isExe <;> simp

theorem updateNodesTokenQuotaNew_isExe (h : m.updateNodesTokenQuotaNew = some m') :
    m'.isExe = m.isExe := by
  obtain ⟨⟨pctx, apps⟩, -, h⟩ := Option.bind_eq_some_iff.mp h
  obtain ⟨⟨pctx', apps', assigned⟩, -, h⟩ := Option.bind_eq_some_iff.mp h
  exact Option.some.inj h ▸ rfl

theorem execute_isExe (h : m.execute = some m') : m'.isExe = true := by
  unfold execute at h
  split at h
  · rename_i hExe
    exact Option.some.inj h ▸ hExe
  · exact updateNodesTokenQuotaNew_isExe h

theorem tryClearWaitIncrease_isExe {fuel : Nat} (h : m.tryClearWaitIncrease fuel = some m') :
    m'.isExe = m.isExe := by
  induction fuel generalizing m with
  | zero => cases h
  | succ fuel ih =>
    unfold tryClearWaitIncrease at h
    split at h
    · exact Option.some.inj h ▸ rfl
    · obtain ⟨node, -, h⟩ := Option.bind_eq_some_iff.mp h
      rcases m.updateTokenQuota_cases node with ⟨-, heq⟩ | ⟨-, tokens, -, ⟨-, heq⟩ | ⟨-, heq⟩⟩ <;>
        simp only [heq] at h
      · exact ih h
      · have := ih h
        exact this
      · exact Option.some.inj h ▸ rfl

theorem rcvdSection_isExe {a2d : App2Dispatch} (h : m.rcvdSection id a2d = some m') :
    m'.isExe = m.isExe := by
  obtain ⟨⟨m₁, found⟩, hRcvd, h⟩ := Option.bind_eq_some_iff.mp h
  have hKept : m₁.isExe = m.isExe := by
    unfold nodeRcvd at hRcvd
    split at hRcvd
    · exact (Prod.mk.inj (Option.some.inj hRcvd)).1 ▸ rfl
    · obtain ⟨node, -, hRcvd⟩ := Option.bind_eq_some_iff.mp hRcvd
      exact (Prod.mk.inj (Option.some.inj hRcvd)).1 ▸ rfl
  rw [← hKept]
  split at h
  · rename_i heq
    cases heq
    split at h <;> exact Option.some.inj h ▸ rfl
  · rename_i heq
    cases heq
    exact Option.some.inj h ▸ rfl

theorem onlineSection_isExe {done : Bool} (h : m.onlineSection id = some (m', done)) :
    m'.isExe = m.isExe := by
  unfold onlineSection at h
  split at h
  · exact (Prod.mk.inj (Option.some.inj h)).1 ▸ rfl
  · simp only at h
    split at h
    · exact (Prod.mk.inj (Option.some.inj h)).1 ▸ rfl
    · obtain ⟨⟨tokens, node, err⟩, -, h⟩ := Option.bind_eq_some_iff.mp h
      simp only at h
      split at h
      · obtain ⟨⟨tab, tabErr⟩, -, h⟩ := Option.bind_eq_some_iff.mp h
        simp only at h
        split at h
        · exact (Prod.mk.inj (Option.some.inj h)).1 ▸ rfl
        · obtain ⟨⟨tokens', node'⟩, -, h⟩ := Option.bind_eq_some_iff.mp h
          exact (Prod.mk.inj (Option.some.inj h)).1 ▸ rfl
      · exact (Prod.mk.inj (Option.some.inj h)).1 ▸ rfl

theorem nodeOffline_isExe (h : m.nodeOffline id = some m') : m'.isExe = m.isExe := by
  unfold nodeOffline at h
  split at h
  · cases h
  · exact Option.some.inj h ▸ rfl

end DispManager

namespace DispSection

/-- `execute` is called: by every `update_policy(manager, true)`, and by every
other that the count lets through. -/
def isExecute : DispSection Id → Bool
  | .execute => true
  | _ => false

variable {m m' : DispManager ops} {a : DispSection Id}

/-- Only `execute` writes the flag, and it leaves it set. -/
theorem isExe_of_step (h : m.SectionStep a m') : m'.isExe = (m.isExe || a.isExecute) := by
  cases a with
  | increase | reduce | countClear | countTest =>
    obtain rfl := h
    exact (Bool.or_false _).symm
  | online =>
    obtain ⟨done, h⟩ := h
    exact (DispManager.onlineSection_isExe h).trans (Bool.or_false _).symm
  | offline => exact (DispManager.nodeOffline_isExe h).trans (Bool.or_false _).symm
  | rcvd => exact (DispManager.rcvdSection_isExe h).trans (Bool.or_false _).symm
  | execute => exact (DispManager.execute_isExe h).trans (Bool.or_true _).symm
  | rebalance =>
    exact (DispManager.updateNodesTokenQuotaNew_isExe h).trans (Bool.or_false _).symm
  | clearWaitIncrease =>
    obtain ⟨fuel, h⟩ := h
    exact (DispManager.tryClearWaitIncrease_isExe h).trans (Bool.or_false _).symm

end DispSection

/-- If the section calls `execute`, the nodes are rebalanced. -/
def Rebalances (x : DispTransition ops) : Prop :=
  x.act.isExecute = true → x.pre.executor.compareAndSwap.2 = true

/-- How often `execute` was called. -/
def executes (tr : List (DispTransition ops)) : ℕ := tr.countP fun x => x.act.isExecute

theorem executes_snoc (tr : List (DispTransition ops)) (x : DispTransition ops) :
    executes (tr ++ [x]) = executes tr + if x.act.isExecute then 1 else 0 := by
  simp [executes, List.countP_singleton]

theorem isExe_of_run {m₀ m : DispManager ops} {tr : List (DispTransition ops)}
    (hInit : (dispSystem ops).init m₀) (hRun : Run (dispSystem ops) m₀ tr m) :
    m.isExe = true ↔ 0 < executes tr := by
  induction hRun with
  | nil =>
    obtain ⟨tableLen, maxNodeNum, updateInterval, minRsNum, h, rfl⟩ := hInit
    simp [DispManager.init, executes]
  | @snoc _ _ tr a _ hStep ih =>
    rw [executes_snoc, DispSection.isExe_of_step hStep, Bool.or_eq_true, ih]
    cases a.isExecute <;> simp

/-- **The dispatcher rebalances once.** Every `execute` of a run rebalances
exactly if there is at most one. -/
theorem rebalances_iff {m₀ m : DispManager ops} {tr : List (DispTransition ops)}
    (hInit : (dispSystem ops).init m₀) (hRun : Run (dispSystem ops) m₀ tr m) :
    (∀ x ∈ tr, Rebalances x) ↔ executes tr ≤ 1 := by
  induction hRun with
  | nil => simp [executes]
  | @snoc t _ tr a hRun hStep ih =>
    rw [List.forall_mem_append, List.forall_mem_singleton, executes_snoc, ih]
    have hSet := isExe_of_run hInit hRun
    cases hExecute : a.isExecute with
    | false => simp [Rebalances, hExecute]
    | true =>
      -- one more `execute`: it rebalances if the flag was not yet set
      have hSwap : t.executor.compareAndSwap.2 = true ↔ ¬ t.isExe = true := by
        cases hExe : t.isExe <;>
          simp [DispManager.executor, FenceExecutor.compareAndSwap, hExe]
      simp only [Rebalances, hExecute, if_true, forall_const, hSwap, hSet]
      omega

-- ---------------------------------------------------------------------------
-- When the fence re-arms
-- ---------------------------------------------------------------------------

/-- **Executions never overlap, but only the first call runs.** In a run of
`execute` calls no two executions of `func` are in progress at once and every
call that starts while none is in progress runs it, exactly if no call starts
after one has run `func` to its end; once all calls have returned, `func` ran
once per call exactly if there was at most one. The dispatcher rebalances
whenever it calls `execute` exactly if it does so at most once. -/
theorem fence_excludes_iff {c₀ c : Config FenceExecutor ExecuteCall} {tr : List FenceTransition}
    {m₀ m : DispManager ops} {sections : List (DispTransition ops)}
    (hInit : fenceSystem.init c₀) (hRun : Run fenceSystem c₀ tr c)
    (hInitDisp : (dispSystem ops).init m₀) (hRunDisp : Run (dispSystem ops) m₀ sections m) :
    (((∀ x ∈ tr, executing x.post.calls ≤ 1) ∧ ∀ x ∈ tr, StartRuns x) ↔
      ∀ x ∈ tr, StartsBeforeEnd x) ∧
    ((∀ l ∈ c.calls, ∃ b, l = .returned b) →
      (ran c.calls = c.calls.card ↔ c.calls.card ≤ 1)) ∧
    ((∀ x ∈ sections, Rebalances x) ↔ executes sections ≤ 1) := by
  refine ⟨?_, ran_each_iff ⟨c₀, tr, hInit, hRun⟩, rebalances_iff hInitDisp hRunDisp⟩
  rw [← starts_run_iff hInit hRun]
  exact and_iff_right (executions_exclude hInit hRun)

/-- One call after the other: the second starts when `func` has ended, and does
not run it. -/
theorem run_two_executes :
    ∃ tr c, Run fenceSystem ⟨.init, 0⟩ tr c ∧ c.calls = {.returned false, .returned true} ∧
      ¬ ∀ x ∈ tr, StartRuns x := by
  have hrun := (Run.nil (S := fenceSystem) (s := ⟨.init, 0⟩)).snoc
    (Step.start rfl) |>.snoc (Step.run .start) |>.snoc (Step.run .finish)
    |>.snoc (Step.start rfl) |>.snoc (Step.run .start)
  refine ⟨_, _, hrun, rfl, fun h => ?_⟩
  have := h _ (List.mem_append_right _ (List.mem_singleton_self _)) _ rfl (by decide)
  exact absurd this (by decide)

theorem second_execute_skips :
    ¬ ∀ c₀ tr c, fenceSystem.init c₀ → Run fenceSystem c₀ tr c →
      (∀ x ∈ tr, executing x.post.calls ≤ 1) ∧ ∀ x ∈ tr, StartRuns x := by
  intro h
  obtain ⟨tr, c, hrun, -, hSkips⟩ := run_two_executes
  exact hSkips (h _ tr c ⟨rfl, rfl⟩ hrun).2

/-- A call that starts inside the `func` of another one runs nothing, as it
should; and the first `execute` of a dispatcher with tokens rebalances. -/
theorem fence_excludes_overlapping_calls :
    ∃ tr c, Run fenceSystem ⟨.init, 0⟩ tr c ∧ c.calls = {.returned true, .returned false} ∧
      ∃ sections m, Run (dispSystem IdOps.nat) freshDispatcher sections m ∧
        executes sections = 1 ∧
        ((∀ x ∈ tr, executing x.post.calls ≤ 1) ∧ ∀ x ∈ tr, StartRuns x) ∧
        ∀ x ∈ sections, Rebalances x := by
  have hrun := (Run.nil (S := fenceSystem) (s := ⟨.init, 0⟩)).snoc
    (Step.start rfl) |>.snoc (Step.run .start) |>.snoc (Step.start rfl) |>.snoc (Step.run .start)
    |>.snoc (Step.run_of_eq (Multiset.cons_swap _ _ _) .finish)
  have hIncrease : (dispSystem IdOps.nat).step freshDispatcher (.increase 100) withTokens := rfl
  have hExecutes : withTokens.execute.isSome = true := by decide
  have hExecute : (dispSystem IdOps.nat).step withTokens .execute
    (withTokens.execute.get hExecutes) := (Option.some_get hExecutes).symm
  have hsections := (Run.single hIncrease).snoc hExecute
  obtain ⟨hExcludes, -, hRebalances⟩ :=
    fence_excludes_iff ⟨rfl, rfl⟩ hrun freshDispatcher_initial hsections
  refine ⟨_, _, hrun, rfl, _, _, hsections, rfl, hExcludes.mpr ?_, hRebalances.mpr (Nat.le_refl 1)⟩
  -- nobody has come to the end of `func` when a call starts
  exact forall_snoc (forall_snoc (forall_snoc (forall_snoc (forall_snoc (by simp)
    fun _ _ => by decide) fun _ _ => by decide) fun _ _ => by decide) fun _ _ => by decide)
    fun _ _ => by decide

end DatastorQos
