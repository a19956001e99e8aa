import Mathlib.Data.Multiset.MapFold
import Mathlib.Data.Multiset.Count
import DatastorQos.Lib.Runs

/-!
# Interleavings — any number of concurrent calls over a shared state

A `Program` says what one atomic step of one call does to the shared state and
to the call's own local state (its program counter and locals). A configuration
is the shared state together with the multiset of the local states of all calls
started so far: calls are anonymous, and there may be any number of them. A
step either starts a new call or lets one call take one atomic step, so the
runs are exactly the sequentially consistent interleavings.

Because the calls form a multiset, a step of one call has the shape
`l ::ₘ rest ⟶ l' ::ₘ rest`, and any sum or count over the calls changes by the
contribution of `l` alone (`Multiset.sum_cons`, `Multiset.countP_cons_of_pos`).
-/

namespace DatastorQos.Interleave

open DatastorQos.Runs

variable {σ ι : Type*}

/-- `start`: the local states a new call may begin in; `step`: the atomic steps
of one call. -/
structure Program (σ ι : Type*) where
  start : ι → Prop
  step  : σ → ι → σ → ι → Prop

/-- The shared state and the local states of all calls. -/
structure Config (σ ι : Type*) where
  shared : σ
  calls  : Multiset ι

/-- What an interleaving step did: a call started, or one call moved. -/
inductive Move (ι : Type*) where
  | start (l : ι)
  | run (l l' : ι)

inductive Step (P : Program σ ι) : Config σ ι → Move ι → Config σ ι → Prop where
  | start {s : σ} {calls : Multiset ι} {l : ι} :
      P.start l → Step P ⟨s, calls⟩ (.start l) ⟨s, l ::ₘ calls⟩
  | run {s s' : σ} {rest : Multiset ι} {l l' : ι} :
      P.step s l s' l' → Step P ⟨s, l ::ₘ rest⟩ (.run l l') ⟨s', l' ::ₘ rest⟩

theorem Step.run_of_eq {P : Program σ ι} {s s' : σ} {calls rest : Multiset ι} {l l' : ι}
    (hcalls : calls = l ::ₘ rest) (h : P.step s l s' l') :
    Step P ⟨s, calls⟩ (.run l l') ⟨s', l' ::ₘ rest⟩ := by
  subst hcalls
  exact .run h

/-- The interleavings of `P` from the shared states in `init`, no call started. -/
def Program.system (P : Program σ ι) (init : σ → Prop) :
    System (Config σ ι) (Move ι) where
  init c := init c.shared ∧ c.calls = 0
  step := Step P

variable {P : Program σ ι} {init : σ → Prop}

/-- **Invariant rule for interleavings**: a property of configurations holds in
every reachable one if it holds with no call started, survives the start of a
call, and survives one atomic step of one call beside any others. -/
theorem reachable_invariant {I : σ → Multiset ι → Prop}
    (hinit : ∀ s, init s → I s 0)
    (hstart : ∀ s calls l, I s calls → P.start l → I s (l ::ₘ calls))
    (hrun : ∀ s s' l l' rest, I s (l ::ₘ rest) → P.step s l s' l' → I s' (l' ::ₘ rest))
    {c : Config σ ι} (h : Reachable (P.system init) c) : I c.shared c.calls := by
  refine h.invariant (I := fun c => I c.shared c.calls) ?_ ?_
  · rintro ⟨s, calls⟩ ⟨hs, hcalls⟩
    simp only at hs hcalls
    subst hcalls
    exact hinit s hs
  · rintro _ _ _ hI (⟨hl⟩ | ⟨hst⟩)
    · exact hstart _ _ _ hI hl
    · exact hrun _ _ _ _ _ hI hst

end DatastorQos.Interleave
