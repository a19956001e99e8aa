import Mathlib.Data.Multiset.Filter
import DatastorQos.Lib.Interleave
import DatastorQos.Lib.Refine

/-!
# Linearize — concurrent calls that look atomic

`Machine.object` is what users of a machine may expect when they call it from
several threads: a call is made, at one moment it is answered by the machine,
and then it returns the answer.

A program whose calls take several atomic steps `Linearizes` the machine if each
of its steps is no step of the object or exactly one. Then every interleaving of
the program has the calls and the returns of an interleaving of the object, in
the same order (`Linearizes.run`), and the answers the calls got are those the
machine gives one after the other (`object_sequential`).
-/

namespace DatastorQos.Linearize

open DatastorQos.Runs DatastorQos.Interleave DatastorQos.Refine

variable {σ τ ι Op Out : Type*}

/-- Where a call is. -/
inductive ObjectCall (Op Out : Type*) where
  | invoked (op : Op)
  | answered (op : Op) (out : Out)
  | returned (op : Op) (out : Out)

inductive ObjectStep (M : Machine τ Op Out) : τ → ObjectCall Op Out → τ → ObjectCall Op Out → Prop
    where
  | answer {t t' : τ} {op : Op} {out : Out} :
      M.step t op = some (t', out) → ObjectStep M t (.invoked op) t' (.answered op out)
  | give {t : τ} {op : Op} {out : Out} : ObjectStep M t (.answered op out) t (.returned op out)

/-- The atomic object of a machine. -/
def object (M : Machine τ Op Out) : Program τ (ObjectCall Op Out) where
  start l := ∃ op, l = .invoked op
  step := ObjectStep M

/-- What the caller sees. -/
inductive Event (Op Out : Type*) where
  | call (op : Op)
  | ret (op : Op) (out : Out)

/-- What is seen of a move of the object. -/
def seen : Move (ObjectCall Op Out) → List (Event Op Out)
  | .start (.invoked op) => [.call op]
  | .run (.answered _ _) (.returned op out) => [.ret op out]
  | _ => []

def mapMove (view : ι → ObjectCall Op Out) : Move ι → Move (ObjectCall Op Out)
  | .start l => .start (view l)
  | .run l l' => .run (view l) (view l')

/-- The calls and returns of a run, where a call in local state `l` is the call
`view l`. -/
def history (view : ι → ObjectCall Op Out) (tr : List (Transition (Config σ ι) (Move ι))) :
    List (Event Op Out) :=
  tr.flatMap fun x => seen (mapMove view x.act)

/-- Each step is no step of the object or one; `I` is what a run keeps. -/
structure Linearizes (P : Program σ ι) (M : Machine τ Op Out) (view : ι → ObjectCall Op Out)
    (R : σ → τ → Prop) : Prop where
  start : ∀ l, P.start l → ∃ op, view l = .invoked op
  step  : ∀ s l s' l' t, R s t → P.step s l s' l' →
    (view l' = view l ∧ R s' t) ∨ ∃ t', ObjectStep M t (view l) t' (view l') ∧ R s' t'

variable {P : Program σ ι} {M : Machine τ Op Out} {view : ι → ObjectCall Op Out}
  {R : σ → τ → Prop}

theorem history_snoc (tr : List (Transition (Config σ ι) (Move ι)))
    (x : Transition (Config σ ι) (Move ι)) :
    history view (tr ++ [x]) = history view tr ++ seen (mapMove view x.act) := by
  simp [history]

/-- A step that is none of the object is not seen. -/
theorem seen_self (l : ObjectCall Op Out) : seen (.run l l) = [] := by
  cases l <;> rfl

/-- **Linearization rule.** -/
theorem Linearizes.run (h : Linearizes P M view R) {init : σ → Prop} {s s' : σ}
    {calls calls' : Multiset ι} {tr : List (Transition (Config σ ι) (Move ι))}
    (hRun : Run (P.system init) ⟨s, calls⟩ tr ⟨s', calls'⟩) {t : τ} (hR : R s t)
    (init' : τ → Prop) :
    ∃ tr' t', Run ((object M).system init') ⟨t, calls.map view⟩ tr' ⟨t', calls'.map view⟩ ∧
      history id tr' = history view tr ∧ R s' t' := by
  generalize hc : (⟨s, calls⟩ : Config σ ι) = c at hRun
  generalize hc' : (⟨s', calls'⟩ : Config σ ι) = c' at hRun
  induction hRun generalizing s' calls' with
  | nil =>
    subst hc
    cases hc'
    exact ⟨[], t, Run.nil, rfl, hR⟩
  | @snoc c₁ c₂ tr a _ hStep ih =>
    subst hc hc'
    obtain ⟨s₁, calls₁⟩ := c₁
    obtain ⟨tr', t₁, hRun', hHistory, hR₁⟩ := ih rfl
    simp only [history_snoc]
    cases hStep with
    | @start _ _ l hl =>
      obtain ⟨op, hOp⟩ := h.start l hl
      have hStep' : Step (object M) ⟨t₁, calls₁.map view⟩ (.start (view l))
          ⟨t₁, (l ::ₘ calls₁).map view⟩ := by
        rw [Multiset.map_cons]
        exact .start ⟨op, hOp⟩
      refine ⟨_, t₁, hRun'.snoc hStep', ?_, hR₁⟩
      rw [history_snoc, hHistory]
      rfl
    | @run _ _ rest l l' hStep =>
      rcases h.step _ _ _ _ t₁ hR₁ hStep with ⟨hView, hR'⟩ | ⟨t', hObject, hR'⟩
      · -- the object does not move
        rw [Multiset.map_cons] at hRun'
        refine ⟨tr', t₁, ?_, ?_, hR'⟩
        · rw [Multiset.map_cons, hView]
          exact hRun'
        · rw [hHistory, mapMove, hView, seen_self, List.append_nil]
      · have hStep' : Step (object M) ⟨t₁, (l ::ₘ rest).map view⟩ (.run (view l) (view l'))
            ⟨t', (l' ::ₘ rest).map view⟩ := by
          rw [Multiset.map_cons, Multiset.map_cons]
          exact .run hObject
        refine ⟨_, t', hRun'.snoc hStep', ?_, hR'⟩
        rw [history_snoc, hHistory]
        rfl

/-- The answer a call got. -/
def ObjectCall.answer? : ObjectCall Op Out → Option (Op × Out)
  | .invoked _ => none
  | .answered op out => some (op, out)
  | .returned op out => some (op, out)

/-- The answers of the object are those of the machine, in some order. -/
theorem object_sequential {init : τ → Prop} {t t' : τ} {calls : Multiset (ObjectCall Op Out)}
    {tr : List (Transition (Config τ (ObjectCall Op Out)) (Move (ObjectCall Op Out)))}
    (hRun : Run ((object M).system init) ⟨t, 0⟩ tr ⟨t', calls⟩) :
    ∃ order : List (Op × Out), M.run t (order.map Prod.fst) = some (t', order.map Prod.snd) ∧
      (order : Multiset (Op × Out)) = calls.filterMap ObjectCall.answer? := by
  generalize hc : (⟨t, 0⟩ : Config τ (ObjectCall Op Out)) = c at hRun
  generalize hc' : (⟨t', calls⟩ : Config τ (ObjectCall Op Out)) = c' at hRun
  induction hRun generalizing t' calls with
  | nil =>
    subst hc
    cases hc'
    exact ⟨[], rfl, rfl⟩
  | @snoc c₁ c₂ tr a _ hStep ih =>
    subst hc hc'
    obtain ⟨t₁, calls₁⟩ := c₁
    obtain ⟨order, hOrder, hCalls⟩ := ih rfl
    cases hStep with
    | start hl =>
      obtain ⟨op, rfl⟩ := hl
      refine ⟨order, hOrder, ?_⟩
      rw [hCalls, Multiset.filterMap_cons_none _ _ rfl]
    | @run _ _ rest l l' hStep =>
      cases hStep with
      | @answer _ op out hAnswer =>
        rw [Multiset.filterMap_cons_none _ _ rfl] at hCalls
        refine ⟨order ++ [(op, out)], ?_, ?_⟩
        · rw [List.map_append, List.map_append]
          refine Machine.run_append hOrder ?_
          simp only [List.map_cons, List.map_nil, Machine.run, hAnswer, Option.bind_eq_bind,
            Option.bind_some, Option.pure_def]
        · rw [Multiset.filterMap_cons_some ObjectCall.answer? _ _ rfl, ← hCalls]
          refine Multiset.coe_eq_coe.mpr ?_
          exact List.perm_append_singleton _ _
      | @give op out =>
        refine ⟨order, hOrder, ?_⟩
        rw [hCalls, Multiset.filterMap_cons_some ObjectCall.answer? _ _ rfl,
          Multiset.filterMap_cons_some ObjectCall.answer? _ _ rfl]

end DatastorQos.Linearize
