import Mathlib.Tactic.Ring
import DatastorQos.Lib.Interleave
import DatastorQos.Dispatcher.DispManager

/-!
# datastor_qos — the count controller under concurrent calls

The model of `count_controller.c` step by step: `test_cnt` reads `cnt` into
`old`, reads `cnt` again for `up_cnt`, and lets the compare-and-swap of `old`
write what `up_cnt` made of the second read. Nothing makes the two reads agree,
and the counter cycles, so `old` may be there again when the swap is tried.

* `testCnt_run` — a call that nothing comes between is `testCnt`;
* `counts_every_call_iff` — every `max + 1`st call returns `true`, in every
  state of a run, exactly if each swap that succeeds had read `old` twice;
* `run_three_tests` — three calls, two of which return `true`.
-/

namespace DatastorQos

open Runs Interleave

/-- `up_cnt`, with `*is_max`. -/
def upCnt (cnt max : Int) : Int × Bool :=
  if cnt < max then (cnt + 1, false) else (0, true)

/-- One call of `test_cnt`. -/
inductive TestCall where
  /-- `old = controller->cnt` comes next -/
  | reading
  /-- the read of `controller->cnt` for `up_cnt` comes next -/
  | upping (old : Int)
  /-- `up_cnt` was given `seen`; the compare-and-swap comes next -/
  | swapping (old seen : Int)
  | returned (res : Bool)
  deriving DecidableEq, Repr

/-- The steps of `test_cnt`. -/
inductive TestStep : CountController → TestCall → CountController → TestCall → Prop where
  | read {c} : TestStep c .reading c (.upping c.cnt)
  | up {c old} : TestStep c (.upping old) c (.swapping old c.cnt)
  | swap {c old seen} : c.cnt = old → TestStep c (.swapping old seen)
      { c with cnt := (upCnt seen c.max).1 } (.returned (upCnt seen c.max).2)
  | retry {c old seen} : c.cnt ≠ old → TestStep c (.swapping old seen) c .reading

def testProgram : Program CountController TestCall where
  start l := l = .reading
  step := TestStep

/-- One controller after `count_controller_init`, for any interval. -/
def testSystem : System (Config CountController TestCall) (Move TestCall) :=
  testProgram.system fun c => ∃ intervalCnt : Int, 0 ≤ intervalCnt ∧ c = ⟨0, intervalCnt⟩

abbrev TestTransition := Transition (Config CountController TestCall) (Move TestCall)

namespace TestCall

/-- The call is inside `test_cnt`. -/
def InProgress : TestCall → Prop
  | returned _ => False
  | _ => True

def isReturned : TestCall → Bool
  | returned _ => true
  | _ => false

end TestCall

/-- The calls completed. -/
def completed (calls : Multiset TestCall) : ℕ := calls.countP fun l => l.isReturned

/-- The calls that returned `true`. -/
def trues (calls : Multiset TestCall) : ℕ := calls.count (.returned true)

theorem completed_cons (l : TestCall) (calls : Multiset TestCall) :
    completed (l ::ₘ calls) = completed calls + if l.isReturned then 1 else 0 :=
  Multiset.countP_cons _ _ _

theorem trues_cons (l : TestCall) (calls : Multiset TestCall) :
    trues (l ::ₘ calls) = trues calls + if .returned true = l then 1 else 0 :=
  Multiset.count_cons _ _ _

/-- Every `max + 1`st completed call returned `true`, and `cnt` is how many
completed since. -/
structure CountsAll (c : Config CountController TestCall) : Prop where
  trues_eq : (trues c.calls : ℤ) = completed c.calls / (c.shared.max + 1)
  cnt_eq   : c.shared.cnt = completed c.calls % (c.shared.max + 1)

/-- If the step is a compare-and-swap that succeeds, `up_cnt` was given `old`. -/
def SwapsWhatItRead (x : TestTransition) : Prop :=
  ∀ old seen l', x.act = .run (.swapping old seen) l' → x.pre.shared.cnt = old → seen = old

-- ---------------------------------------------------------------------------
-- A call alone
-- ---------------------------------------------------------------------------

theorem CountController.testCnt_eq (c : CountController) :
    c.testCnt = ({ c with cnt := (upCnt c.cnt c.max).1 }, (upCnt c.cnt c.max).2) := by
  unfold testCnt upCnt
  split <;> rfl

/-- A call that nothing comes between is `testCnt`, and its swap writes what it
read. -/
theorem testCnt_run (c : CountController) (rest : Multiset TestCall) :
    ∃ tr, Run testSystem ⟨c, .reading ::ₘ rest⟩ tr
        ⟨c.testCnt.1, .returned c.testCnt.2 ::ₘ rest⟩ ∧
      ∀ x ∈ tr, SwapsWhatItRead x := by
  have hrun := (Run.nil (S := testSystem) (s := ⟨c, .reading ::ₘ rest⟩)).snoc
    (Step.run .read) |>.snoc (Step.run .up) |>.snoc (Step.run (.swap rfl))
  rw [c.testCnt_eq]
  refine ⟨_, hrun, ?_⟩
  simp only [List.nil_append, List.forall_mem_append, List.forall_mem_singleton]
  simp [SwapsWhatItRead]

-- ---------------------------------------------------------------------------
-- What one swap does to the count
-- ---------------------------------------------------------------------------

/-- `cnt` and the `true`s as digits of the number of completed calls. -/
theorem countsAll_iff {c : Config CountController TestCall} (hMax : 0 ≤ c.shared.max) :
    CountsAll c ↔ c.shared.cnt + (c.shared.max + 1) * trues c.calls = completed c.calls ∧
      0 ≤ c.shared.cnt ∧ c.shared.cnt < c.shared.max + 1 := by
  rw [← Int.ediv_emod_unique (by omega)]
  constructor
  · rintro ⟨hTrues, hCnt⟩
    exact ⟨hTrues.symm, hCnt.symm⟩
  · rintro ⟨hTrues, hCnt⟩
    exact ⟨hTrues.symm, hCnt.symm⟩

/-- `up_cnt` of a value in the cycle is the next one, with a `true` for the last. -/
theorem upCnt_cases {cnt max : Int} (hCnt : cnt ≤ max) :
    cnt < max ∧ upCnt cnt max = (cnt + 1, false) ∨ cnt = max ∧ upCnt cnt max = (0, true) := by
  unfold upCnt
  by_cases hLess : cnt < max
  · exact Or.inl ⟨hLess, if_pos hLess⟩
  · exact Or.inr ⟨by omega, if_neg hLess⟩

/-- One more call completes: the count is still right exactly if `up_cnt` was
given the value that the swap replaces. -/
theorem CountsAll.swap_iff {c : CountController} {seen : Int} {rest : Multiset TestCall}
    (h : CountsAll ⟨c, .swapping c.cnt seen ::ₘ rest⟩) (hMax : 0 ≤ c.max)
    (hSeen : 0 ≤ seen ∧ seen ≤ c.max) :
    CountsAll ⟨{ c with cnt := (upCnt seen c.max).1 }, .returned (upCnt seen c.max).2 ::ₘ rest⟩ ↔
      seen = c.cnt := by
  obtain ⟨hEq, hCntPos, hCntLt⟩ := (countsAll_iff hMax).mp h
  rw [countsAll_iff (by exact hMax)]
  simp only [completed_cons, trues_cons, TestCall.isReturned, reduceCtorEq, if_false, if_true,
    Nat.add_zero, Bool.false_eq_true] at hEq hCntPos hCntLt ⊢
  obtain ⟨hLess, hUp⟩ | ⟨hLast, hUp⟩ := upCnt_cases hSeen.2
  · simp only [hUp, TestCall.returned.injEq, Bool.true_eq_false, if_false, Nat.add_zero]
    constructor
    · rintro ⟨hEq', -, -⟩
      omega
    · intro hSame
      omega
  · -- the last value of the cycle: one `true` more, worth `max + 1` calls
    have hMul : (c.max + 1) * ((trues rest + 1 : ℕ) : ℤ) =
        (c.max + 1) * trues rest + (c.max + 1) := by push_cast; ring
    simp only [hUp, if_true, hMul]
    constructor
    · rintro ⟨hEq', -, -⟩
      omega
    · intro hSame
      omega

-- ---------------------------------------------------------------------------
-- Whole runs
-- ---------------------------------------------------------------------------

/-- The count is right, and what a call passed to `up_cnt` is a value of the
cycle. -/
structure Counting (c : Config CountController TestCall) : Prop where
  maxNat : 0 ≤ c.shared.max
  counts : CountsAll c
  seen   : ∀ old seen, .swapping old seen ∈ c.calls → 0 ≤ seen ∧ seen ≤ c.shared.max

theorem Counting.of_init {c : Config CountController TestCall} (h : testSystem.init c) :
    Counting c := by
  obtain ⟨⟨intervalCnt, hNat, hShared⟩, hCalls⟩ := h
  refine ⟨by simpa [hShared] using hNat, ⟨?_, ?_⟩, by simp [hCalls]⟩
  · simp [hCalls, trues, completed]
  · simp [hShared, hCalls, completed]

/-- A step that completes no call leaves the count alone. -/
theorem CountsAll.of_same {c : CountController} {l l' : TestCall} {rest : Multiset TestCall}
    (h : CountsAll ⟨c, l ::ₘ rest⟩) (hl : l.isReturned = false) (hl' : l'.isReturned = false) :
    CountsAll ⟨c, l' ::ₘ rest⟩ := by
  have hNotTrue : ∀ {l : TestCall}, l.isReturned = false → .returned true ≠ l := by
    rintro l hl rfl
    cases hl
  obtain ⟨hTrues, hCnt⟩ := h
  simp only [completed_cons, trues_cons, hl, if_neg (hNotTrue hl), Bool.false_eq_true, if_false,
    Nat.add_zero] at hTrues hCnt
  constructor
  · simpa only [completed_cons, trues_cons, hl', if_neg (hNotTrue hl'), Bool.false_eq_true,
      if_false, Nat.add_zero] using hTrues
  · simpa only [completed_cons, hl', Bool.false_eq_true, if_false, Nat.add_zero] using hCnt

/-- One step from a state with the right count: the count stays right exactly if
a swap that succeeds had read `old` twice. -/
theorem Counting.step {c c' : Config CountController TestCall} {a : Move TestCall}
    (h : Counting c) (hStep : testSystem.step c a c') :
    (CountsAll c' ↔ SwapsWhatItRead ⟨c, a, c'⟩) ∧ (CountsAll c' → Counting c') := by
  obtain ⟨hMax, hCounts, hSeen⟩ := h
  have hRest : ∀ {s : CountController} {l l' : TestCall} {rest : Multiset TestCall},
      (∀ old seen, .swapping old seen ∈ l ::ₘ rest → 0 ≤ seen ∧ seen ≤ s.max) →
      (∀ old seen, l' = .swapping old seen → 0 ≤ seen ∧ seen ≤ s.max) →
      ∀ old seen, .swapping old seen ∈ l' ::ₘ rest → 0 ≤ seen ∧ seen ≤ s.max := by
    intro s l l' rest hAll hNew old seen hMem
    rcases Multiset.mem_cons.mp hMem with hEq | hMem
    · exact hNew old seen hEq.symm
    · exact hAll old seen (Multiset.mem_cons_of_mem hMem)
  cases hStep with
  | @start s calls l hl =>
    have hCounts' : CountsAll ⟨s, l ::ₘ calls⟩ := by
      rw [show l = .reading from hl]
      exact ⟨by simpa [completed_cons, trues_cons, TestCall.isReturned] using hCounts.trues_eq,
        by simpa [completed_cons, TestCall.isReturned] using hCounts.cnt_eq⟩
    refine ⟨iff_of_true hCounts' (by simp [SwapsWhatItRead]), fun _ => ⟨hMax, hCounts', ?_⟩⟩
    intro old seen hMem
    rcases Multiset.mem_cons.mp hMem with hEq | hMem
    · cases hEq.trans hl
    · exact hSeen old seen hMem
  | @run s s' rest l l' hRun =>
    cases hRun with
    | read =>
      have hCounts' : CountsAll ⟨s, .upping s.cnt ::ₘ rest⟩ := hCounts.of_same rfl rfl
      exact ⟨iff_of_true hCounts' (by simp [SwapsWhatItRead]),
        fun _ => ⟨hMax, hCounts', hRest hSeen (by simp)⟩⟩
    | @up old =>
      have hCounts' : CountsAll ⟨s, .swapping old s.cnt ::ₘ rest⟩ := hCounts.of_same rfl rfl
      obtain ⟨-, hCntPos, hCntLt⟩ := (countsAll_iff hMax).mp hCounts
      refine ⟨iff_of_true hCounts' (by simp [SwapsWhatItRead]),
        fun _ => ⟨hMax, hCounts', hRest hSeen ?_⟩⟩
      intro old' seen hEq
      cases hEq
      exact ⟨hCntPos, Int.le_of_lt_add_one hCntLt⟩
    | @swap old seen hSame =>
      subst hSame
      have hSwap := hCounts.swap_iff hMax (hSeen _ seen (Multiset.mem_cons_self _ _))
      refine ⟨hSwap.trans ?_, fun hCounts' => ⟨hMax, hCounts', hRest hSeen (by simp)⟩⟩
      simp [SwapsWhatItRead]
    | @retry old seen hOther =>
      have hCounts' : CountsAll ⟨s, .reading ::ₘ rest⟩ := hCounts.of_same rfl rfl
      refine ⟨iff_of_true hCounts' ?_, fun _ => ⟨hMax, hCounts', hRest hSeen (by simp)⟩⟩
      intro old' seen' l' hAct hSame
      cases hAct
      exact absurd hSame hOther

/-- **Every call is counted** in every state of a run exactly if each swap of the
run that succeeds had read `old` twice: then `max + 1` calls make one `true`,
whenever no call is in progress and at any other time. -/
theorem counts_every_call_iff {c₀ c : Config CountController TestCall}
    {tr : List TestTransition} (hInit : testSystem.init c₀) (hRun : Run testSystem c₀ tr c) :
    ((∀ x ∈ tr, CountsAll x.post) ↔ ∀ x ∈ tr, SwapsWhatItRead x) ∧
      ((∀ x ∈ tr, SwapsWhatItRead x) → CountsAll c) := by
  have hAll := hRun.forall_iff (I := Counting) (P := fun x => CountsAll x.post)
    (fun _ _ _ h hStep => h.step hStep) (.of_init hInit)
  exact ⟨hAll.1, fun hReads => (hAll.2 (hAll.1.mpr hReads)).counts⟩

/-- Every other call is to return `true`. The first reads `old`, the second
counts to 1, which the first then reads for `up_cnt`; the third brings the
counter back to 0, and the swap of the first succeeds. -/
theorem run_three_tests :
    ∃ tr c, Run testSystem ⟨⟨0, 1⟩, 0⟩ tr c ∧ c.shared.max = 1 ∧
      c.calls = {.returned true, .returned true, .returned false} := by
  have hrun := (Run.nil (S := testSystem) (s := ⟨⟨0, 1⟩, 0⟩)).snoc
    (Step.start rfl) |>.snoc (Step.run .read)
    |>.snoc (Step.start rfl) |>.snoc (Step.run .read)
    |>.snoc (Step.run .up) |>.snoc (Step.run (.swap rfl))
    |>.snoc (Step.run_of_eq (Multiset.cons_swap _ _ _) .up)
    |>.snoc (Step.start rfl) |>.snoc (Step.run .read)
    |>.snoc (Step.run .up) |>.snoc (Step.run (.swap rfl))
    |>.snoc (Step.run_of_eq (Multiset.cons_swap _ _ _) (.swap rfl))
  exact ⟨_, _, hrun, rfl, rfl⟩

theorem three_tests_two_true :
    ¬ ∀ c₀ tr c, testSystem.init c₀ → Run testSystem c₀ tr c →
      (∀ l ∈ c.calls, ¬ l.InProgress) → CountsAll c := by
  intro h
  obtain ⟨tr, c, hrun, hMax, hCalls⟩ := run_three_tests
  have hCounts := h _ tr c ⟨⟨1, by decide, rfl⟩, rfl⟩ hrun (by simp [hCalls, TestCall.InProgress])
  have hTrues := hCounts.trues_eq
  rw [hCalls, hMax] at hTrues
  exact absurd hTrues (by decide)

/-- Under the same interval, a call that another one overtakes reads again: its
swap finds 1 where it had read 0. It is the second to complete, and the one that
returns `true`. -/
theorem counts_every_call_overtaken :
    ∃ tr c, Run testSystem ⟨⟨0, 1⟩, 0⟩ tr c ∧ c.calls = {.returned true, .returned false} ∧
      (∀ x ∈ tr, CountsAll x.post) ∧ CountsAll c := by
  have hrun := (Run.nil (S := testSystem) (s := ⟨⟨0, 1⟩, 0⟩)).snoc
    (Step.start rfl) |>.snoc (Step.run .read) |>.snoc (Step.run .up)
    |>.snoc (Step.start rfl) |>.snoc (Step.run .read)
    |>.snoc (Step.run .up) |>.snoc (Step.run (.swap rfl))
    |>.snoc (Step.run_of_eq (Multiset.cons_swap _ _ _) (.retry (by decide)))
    |>.snoc (Step.run .read) |>.snoc (Step.run .up) |>.snoc (Step.run (.swap rfl))
  have hAll := counts_every_call_iff ⟨⟨1, by decide, rfl⟩, rfl⟩ hrun
  have hReads := hAll.1.mpr ?_
  · exact ⟨_, _, hrun, rfl, hReads, hAll.2 (hAll.1.mp hReads)⟩
  · simp only [List.nil_append, List.forall_mem_append, List.forall_mem_singleton]
    simp [SwapsWhatItRead, upCnt]

end DatastorQos
