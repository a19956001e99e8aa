import DatastorQos.Lib.Interleave
import DatastorQos.App.Reqgrp

/-!
# datastor_qos — concurrent resolution of a group

Any number of `to_got` and `to_failed` calls run on the requests of one group,
several per request if need be. Each call is a sequence of atomic steps on the
group: write `failed_exist` (`to_failed` only), compare-and-swap the request's
`stat`, decrement `req_pending_nr`, read `failed_exist` (`to_got` only), write
`err`.

A call that has won its compare-and-swap but not yet decremented still counts
as pending; that is the invariant behind everything here
(`GroupInv.pending_eq`). The call whose decrement reaches zero is the only one
to return a verdict.

* `group_resolution` — the counter never goes negative, a request leaves `init`
  once, at most one call returns a verdict, exactly one does once every request
  has been resolved and no winner is still on its way, and the verdict is right;
* `completed_losers_leave_no_verdict` — without that last proviso it fails: the
  call that completed may have lost the race to one that has not.
-/

namespace DatastorQos

open Keyed Runs Interleave

variable {Id : Type}

/-- The next atomic step of a `to_got` or `to_failed` call. -/
inductive ResolvePc where
  /-- write `failed_exist` -/
  | flag
  /-- compare-and-swap `stat` -/
  | cas
  /-- won the compare-and-swap; decrement `req_pending_nr` -/
  | sub
  /-- fetched zero in `to_got`; read `failed_exist` -/
  | read
  /-- fetched zero; write the verdict to `err` -/
  | write (err : QosError)
  /-- returned `err`; `won` tells whether its compare-and-swap succeeded -/
  | returned (won : Bool) (err : QosError)
  deriving DecidableEq, Repr

/-- A call of `to_failed` (`failing`) or `to_got` on request `idx`. -/
structure ResolveCall where
  failing : Bool
  idx     : Nat
  pc      : ResolvePc
  deriving DecidableEq, Repr

namespace ResolveCall

/-- The call's compare-and-swap succeeded. -/
def won (l : ResolveCall) : Bool :=
  match l.pc with
  | .flag | .cas => false
  | .sub | .read | .write _ => true
  | .returned w _ => w

def completed (l : ResolveCall) : Bool :=
  match l.pc with
  | .returned _ _ => true
  | _ => false

/-- Returned something other than `QOS_ERROR_PENDING`. -/
def decided (l : ResolveCall) : Bool :=
  match l.pc with
  | .returned _ err => decide (err ≠ .pending)
  | _ => false

/-- Won its compare-and-swap, not yet decremented. -/
def atSub (l : ResolveCall) : Bool := decide (l.pc = .sub)

/-- Its decrement reached zero. -/
def final (l : ResolveCall) : Bool :=
  match l.pc with
  | .read | .write _ => true
  | .returned _ err => decide (err ≠ .pending)
  | .flag | .cas | .sub => false

/-- The winner of request `i`. -/
def winnerOf (i : Nat) (l : ResolveCall) : Bool := l.won && decide (l.idx = i)

theorem final_of_decided {l : ResolveCall} (h : l.decided = true) : l.final = true := by
  obtain ⟨failing, idx, pc⟩ := l
  cases pc with
  | returned won err => exact h
  | flag | cas | sub | read | write => cases h

/-- The final call is the one with the verdict, unless it is still on its way. -/
theorem decided_eq_final {l : ResolveCall} (h : l.won = true → l.completed = true) :
    l.decided = l.final := by
  obtain ⟨failing, idx, pc⟩ := l
  cases pc with
  | returned won err => rfl
  | flag | cas | sub => rfl
  | read | write => cases h rfl

end ResolveCall

/-- The atomic steps of `to_got` and `to_failed`. -/
inductive ResolveStep : TokenReqgrp Id → ResolveCall → TokenReqgrp Id → ResolveCall → Prop where
  | flag {g i} : ResolveStep g ⟨true, i, .flag⟩ g.setFailedExist ⟨true, i, .cas⟩
  | casWon {g g' f i} : g.casStat i (if f then .failed else .got) = (g', true) →
      ResolveStep g ⟨f, i, .cas⟩ g' ⟨f, i, .sub⟩
  | casLost {g g' f i} : g.casStat i (if f then .failed else .got) = (g', false) →
      ResolveStep g ⟨f, i, .cas⟩ g' ⟨f, i, .returned false .pending⟩
  | subMore {g f i} : g.subPending.reqPendingNr ≠ 0 →
      ResolveStep g ⟨f, i, .sub⟩ g.subPending ⟨f, i, .returned true .pending⟩
  | gotLast {g i} : g.subPending.reqPendingNr = 0 →
      ResolveStep g ⟨false, i, .sub⟩ g.subPending ⟨false, i, .read⟩
  | failedLast {g i} : g.subPending.reqPendingNr = 0 →
      ResolveStep g ⟨true, i, .sub⟩ g.subPending ⟨true, i, .write .failedNode⟩
  | read {g i} : ResolveStep g ⟨false, i, .read⟩ g ⟨false, i, .write g.verdictFlag⟩
  | write {g f i e} : ResolveStep g ⟨f, i, .write e⟩ (g.setErr e) ⟨f, i, .returned true e⟩

/-- Calls on the `n` requests of a group. -/
def resolveProgram (n : Nat) : Program (TokenReqgrp Id) ResolveCall where
  start l := l.idx < n ∧
    ((l.failing = false ∧ l.pc = .cas) ∨ (l.failing = true ∧ l.pc = .flag))
  step := ResolveStep

/-- A group of `n ≥ 1` requests made by `token_reqgrp_init`. -/
def InitialGroup (n : Nat) (g : TokenReqgrp Id) : Prop :=
  ∃ gid cache rsList pri cache', 1 ≤ n ∧ rsList.length = n ∧
    TokenReqgrp.tokenReqgrpInit gid cache rsList pri = (g, cache', .ok)

def resolveSystem (n : Nat) : System (Config (TokenReqgrp Id) ResolveCall) (Move ResolveCall) :=
  (resolveProgram n).system (InitialGroup n)

-- ---------------------------------------------------------------------------
-- The invariant
-- ---------------------------------------------------------------------------

def NoneFailed (g : TokenReqgrp Id) : Prop := ∀ r ∈ g.lheadReqgrp, r.stat ≠ .failed

/-- What holds of one call; `F` says that some `to_failed` call was started. -/
structure CallInv (g : TokenReqgrp Id) (F : Prop) (l : ResolveCall) : Prop where
  winner_valid : l.won → ∃ r, g.request? l.idx = some r
  past_init    : l.completed → ∀ r, g.request? l.idx = some r → r.stat ≠ .init
  flag_written : l.failing → l.pc ≠ .flag → g.failedExist = true
  /-- the verdict about to be written, or already returned -/
  verdict      : ∀ e, (l.pc = .write e ∨ ∃ w, l.pc = .returned w e ∧ e ≠ .pending) →
    (e = .failedNode ∧ F) ∨ (e = .ok ∧ NoneFailed g)
  err_eq       : ∀ w e, l.pc = .returned w e → e ≠ .pending → g.err = e

/-- What holds of the group and all calls on it, at every atomic step. -/
structure GroupInv (g : TokenReqgrp Id) (calls : Multiset ResolveCall) : Prop where
  distinct     : Distinct TokenReq.idx g.lheadReqgrp
  /-- the counter counts the requests in `init` and the winners that have not
  decremented yet -/
  pending_eq   : g.reqPendingNr = g.initNr + calls.countP (·.atSub)
  /-- exactly one decrement reaches zero -/
  final_eq     : calls.countP (·.final) + (if g.reqPendingNr = 0 then 0 else 1) = 1
  winner_eq    : ∀ i r, g.request? i = some r →
    calls.countP (·.winnerOf i) = if r.stat = .init then 0 else 1
  flag_stat    : g.failedExist = false → NoneFailed g
  flag_started : g.failedExist = true → ∃ l ∈ calls, l.failing
  calls_inv    : ∀ l ∈ calls, CallInv g (∃ l' ∈ calls, l'.failing) l

theorem TokenReqgrp.Fresh.groupInv {g : TokenReqgrp Id} (h : g.Fresh)
    (hne : g.lheadReqgrp ≠ []) : GroupInv g 0 := by
  have hPos := List.length_pos_iff.mpr hne
  constructor
  case distinct =>
    exact h.distinct
  case pending_eq =>
    simp [h.pending_eq, h.initNr_eq]
  case final_eq =>
    simp [h.pending_eq, hne]
  case winner_eq =>
    intro i r hr
    simp [h.stat_init r (mem_of_lookup hr)]
  case flag_stat =>
    intro _ r hr
    simp [h.stat_init r hr]
  case flag_started =>
    simp [h.no_failed]
  case calls_inv =>
    simp

/-- The invariant of a call that does not move, across a step of another one. -/
theorem CallInv.mono {g g' : TokenReqgrp Id} {F F' : Prop} {l : ResolveCall} (h : CallInv g F l)
    (hKept : ∀ i r, g.request? i = some r → ∃ r', g'.request? i = some r')
    (hPast : ∀ i r', g'.request? i = some r' →
      ∃ r, g.request? i = some r ∧ (r.stat ≠ .init → r'.stat ≠ .init))
    (hFlag : g.failedExist = true → g'.failedExist = true) (hF : F → F')
    (hFinal : l.final → g'.err = g.err ∧ (NoneFailed g → NoneFailed g')) :
    CallInv g' F' l where
  winner_valid hw := by
    obtain ⟨r, hr⟩ := h.winner_valid hw
    exact hKept _ _ hr
  past_init hc r' hr' := by
    obtain ⟨r, hr, himp⟩ := hPast _ _ hr'
    exact himp (h.past_init hc r hr)
  flag_written hf hpc := hFlag (h.flag_written hf hpc)
  verdict e he := by
    have hfin : l.final = true := by
      rcases he with he | ⟨w, he, hne⟩ <;> simp [ResolveCall.final, he]
      exact hne
    rcases h.verdict e he with ⟨rfl, hF₀⟩ | ⟨rfl, hNone⟩
    · exact Or.inl ⟨rfl, hF hF₀⟩
    · exact Or.inr ⟨rfl, (hFinal hfin).2 hNone⟩
  err_eq w e he hne := by
    have hfin : l.final = true := by simp [ResolveCall.final, he, hne]
    rw [(hFinal hfin).1]
    exact h.err_eq w e he hne

/-- The same, across a step that leaves the requests alone. -/
theorem CallInv.mono_of_requests_eq {g g' : TokenReqgrp Id} {F F' : Prop} {l : ResolveCall}
    (h : CallInv g F l) (hReqs : g'.lheadReqgrp = g.lheadReqgrp)
    (hFlag : g.failedExist = true → g'.failedExist = true) (hF : F → F')
    (hErr : l.final → g'.err = g.err) : CallInv g' F' l := by
  have hReq : ∀ i, g'.request? i = g.request? i := by
    intro i
    unfold TokenReqgrp.request?
    rw [hReqs]
  refine h.mono ?_ ?_ hFlag hF fun hl => ⟨hErr hl, fun hNone => ?_⟩
  · intro i r hr
    exact ⟨r, by rw [hReq, hr]⟩
  · intro i r' hr'
    exact ⟨r', by rw [← hReq, hr'], id⟩
  · unfold NoneFailed
    rw [hReqs]
    exact hNone

/-- The same, across a step that settles a request, for a call without a verdict. -/
theorem CallInv.setStat {g : TokenReqgrp Id} {F F' : Prop} {l : ResolveCall} {i : Nat}
    {s : AppTokenStat} (h : CallInv g F l) (hs : s ≠ .init) (hF : F → F')
    (hNotFinal : l.final = false) : CallInv (g.setStat i s) F' l := by
  refine h.mono ?_ ?_ id hF fun hFinal => ?_
  · intro j r hr
    rw [g.request?_setStat]
    by_cases hj : j = i
    · exact ⟨{ r with stat := s }, by rw [if_pos hj, hr]; rfl⟩
    · exact ⟨r, by rw [if_neg hj, hr]⟩
  · intro j r' hr'
    rw [g.request?_setStat] at hr'
    by_cases hj : j = i
    · rw [if_pos hj] at hr'
      obtain ⟨r, hr, rfl⟩ := Option.map_eq_some_iff.mp hr'
      exact ⟨r, hr, fun _ => hs⟩
    · rw [if_neg hj] at hr'
      exact ⟨r', hr', id⟩
  · rw [hNotFinal] at hFinal
    exact Bool.noConfusion hFinal

-- ---------------------------------------------------------------------------
-- One atomic step
-- ---------------------------------------------------------------------------

/-- A call keeps its kind: whether some `to_failed` was started does not change. -/
theorem exists_failing_cons {l l' : ResolveCall} {rest : Multiset ResolveCall}
    (hl : l'.failing = l.failing) :
    (∃ k ∈ l ::ₘ rest, k.failing = true) → ∃ k ∈ l' ::ₘ rest, k.failing = true := by
  rintro ⟨k, hk, hf⟩
  rcases Multiset.mem_cons.mp hk with rfl | hk
  · exact ⟨l', Multiset.mem_cons_self _ _, hl.trans hf⟩
  · exact ⟨k, Multiset.mem_cons_of_mem hk, hf⟩

/-- A count does not change when the call that moves counts as much as before. -/
theorem countP_cons_eq {p : ResolveCall → Bool} {l l' : ResolveCall}
    {rest : Multiset ResolveCall} (hl : p l' = p l) :
    (l' ::ₘ rest).countP (p · = true) = (l ::ₘ rest).countP (p · = true) := by
  rw [Multiset.countP_cons, Multiset.countP_cons, hl]

/-- While the counter is not zero no decrement has reached it. -/
theorem GroupInv.no_final {g : TokenReqgrp Id} {calls : Multiset ResolveCall}
    (h : GroupInv g calls) (hne : g.reqPendingNr ≠ 0) : ∀ l ∈ calls, l.final = false := by
  have hFinal := h.final_eq
  rw [if_neg hne] at hFinal
  intro l hl
  have := (Multiset.countP_eq_zero (p := (·.final = true))).mp (by omega) l hl
  simpa using this

theorem GroupInv.start {g : TokenReqgrp Id} {calls : Multiset ResolveCall} {n : Nat}
    (h : GroupInv g calls) {l : ResolveCall} (hl : (@resolveProgram Id n).start l) :
    GroupInv g (l ::ₘ calls) := by
  obtain ⟨f, i, pc⟩ := l
  obtain ⟨-, hl⟩ := hl
  -- a call that has not tried its compare-and-swap counts for nothing
  have hNew : ResolveCall.atSub ⟨f, i, pc⟩ = false ∧ ResolveCall.final ⟨f, i, pc⟩ = false ∧
      ResolveCall.won ⟨f, i, pc⟩ = false ∧ ResolveCall.completed ⟨f, i, pc⟩ = false := by
    rcases hl with ⟨-, hpc⟩ | ⟨-, hpc⟩ <;> simp only at hpc <;> subst hpc <;>
      exact ⟨rfl, rfl, rfl, rfl⟩
  have hF : (∃ k ∈ calls, k.failing = true) → ∃ k ∈ (⟨f, i, pc⟩ : ResolveCall) ::ₘ calls,
      k.failing = true :=
    fun ⟨k, hk, hf⟩ => ⟨k, Multiset.mem_cons_of_mem hk, hf⟩
  constructor
  case distinct =>
    exact h.distinct
  case pending_eq =>
    rw [Multiset.countP_cons_of_neg _ (by simp [hNew.1])]
    exact h.pending_eq
  case final_eq =>
    rw [Multiset.countP_cons_of_neg _ (by simp [hNew.2.1])]
    exact h.final_eq
  case winner_eq =>
    intro j r hr
    rw [Multiset.countP_cons_of_neg _ (by simp [ResolveCall.winnerOf, hNew.2.2.1])]
    exact h.winner_eq j r hr
  case flag_stat =>
    exact h.flag_stat
  case flag_started =>
    exact fun hFlag => hF (h.flag_started hFlag)
  case calls_inv =>
    intro k hk
    rcases Multiset.mem_cons.mp hk with rfl | hk
    · constructor
      · simp [hNew.2.2.1]
      · simp [hNew.2.2.2]
      · rcases hl with ⟨hf, -⟩ | ⟨-, hpc⟩
        · simp only at hf
          simp [hf]
        · intro _ hne
          exact absurd hpc hne
      · rcases hl with ⟨-, hpc⟩ | ⟨-, hpc⟩ <;> simp only at hpc <;> simp [hpc]
      · rcases hl with ⟨-, hpc⟩ | ⟨-, hpc⟩ <;> simp only at hpc <;> simp [hpc]
    · exact (h.calls_inv k hk).mono_of_requests_eq rfl id hF fun _ => rfl

/-- `to_failed` writes `failed_exist`. -/
theorem GroupInv.flag {g : TokenReqgrp Id} {rest : Multiset ResolveCall} {i : Nat}
    (h : GroupInv g (⟨true, i, .flag⟩ ::ₘ rest)) :
    GroupInv g.setFailedExist (⟨true, i, .cas⟩ ::ₘ rest) where
  distinct := h.distinct
  pending_eq := by
    rw [countP_cons_eq (l := ⟨true, i, .flag⟩) (by rfl)]
    exact h.pending_eq
  final_eq := by
    rw [countP_cons_eq (l := ⟨true, i, .flag⟩) (by rfl)]
    exact h.final_eq
  winner_eq j r hr := by
    rw [countP_cons_eq (l := ⟨true, i, .flag⟩) (by rfl)]
    exact h.winner_eq j r hr
  flag_stat := by simp
  flag_started _ := ⟨_, Multiset.mem_cons_self _ _, rfl⟩
  calls_inv k hk := by
    rcases Multiset.mem_cons.mp hk with rfl | hk
    · constructor <;> simp [ResolveCall.won, ResolveCall.completed]
    · exact (h.calls_inv k (Multiset.mem_cons_of_mem hk)).mono_of_requests_eq rfl
        (fun _ => rfl) (exists_failing_cons rfl) fun _ => rfl

/-- The call that settles a request becomes its winner, the only one. -/
theorem GroupInv.winner_setStat {g : TokenReqgrp Id} {rest : Multiset ResolveCall} {f : Bool}
    {i : Nat} {s : AppTokenStat} {r : TokenReq Id} (h : GroupInv g (⟨f, i, .cas⟩ ::ₘ rest))
    (hr : g.request? i = some r) (hInit : r.stat = .init) (hs : s ≠ .init) :
    ∀ j r', (g.setStat i s).request? j = some r' →
      (⟨f, i, .sub⟩ ::ₘ rest).countP (·.winnerOf j) = if r'.stat = .init then 0 else 1 := by
  intro j r' hr'
  rw [g.request?_setStat] at hr'
  by_cases hj : j = i
  · subst hj
    rw [if_pos rfl, hr] at hr'
    obtain rfl := Option.some.inj hr'
    have hNone := h.winner_eq j r hr
    rw [Multiset.countP_cons_of_neg _ (by simp [ResolveCall.winnerOf, ResolveCall.won]),
      if_pos hInit] at hNone
    rw [Multiset.countP_cons_of_pos _ (by simp [ResolveCall.winnerOf, ResolveCall.won]), hNone,
      if_neg hs]
  · rw [if_neg hj] at hr'
    have hNot : ∀ pc, ResolveCall.winnerOf j ⟨f, i, pc⟩ = false := fun pc => by
      simp [ResolveCall.winnerOf, Ne.symm hj]
    rw [countP_cons_eq (l := ⟨f, i, .cas⟩) (by rw [hNot, hNot])]
    exact h.winner_eq j r' hr'

/-- A compare-and-swap that succeeds: the request is one fewer in `init`, the
call one more on its way to the decrement. -/
theorem GroupInv.casWon {g g' : TokenReqgrp Id} {rest : Multiset ResolveCall} {f : Bool} {i : Nat}
    (h : GroupInv g (⟨f, i, .cas⟩ ::ₘ rest))
    (hcas : g.casStat i (if f then .failed else .got) = (g', true)) :
    GroupInv g' (⟨f, i, .sub⟩ ::ₘ rest) := by
  rcases g.casStat_cases i (if f then .failed else .got) with ⟨r, hr, hInit, e⟩ | ⟨-, e⟩
  swap
  · rw [e] at hcas
    cases hcas
  rw [e] at hcas
  obtain ⟨rfl, -⟩ := Prod.mk.inj hcas
  set s : AppTokenStat := if f then .failed else .got with hs
  have hsNe : s ≠ .init := by cases f <;> simp [hs]
  have hInitNr := TokenReqgrp.initNr_setStat h.distinct hr hInit hsNe
  have hPending := h.pending_eq
  rw [Multiset.countP_cons_of_neg _ (by simp [ResolveCall.atSub])] at hPending
  -- the request was in `init`, so the counter is not zero: no verdict is on its way
  have hNe : g.reqPendingNr ≠ 0 := by omega
  have hNoFinal := h.no_final hNe
  have hCall := h.calls_inv _ (Multiset.mem_cons_self _ _)
  constructor
  case distinct =>
    exact h.distinct.modify (f := fun r => { r with stat := s }) fun _ => rfl
  case pending_eq =>
    rw [Multiset.countP_cons_of_pos _ (by simp [ResolveCall.atSub]),
      TokenReqgrp.setStat_reqPendingNr]
    push_cast
    omega
  case final_eq =>
    rw [countP_cons_eq (l := ⟨f, i, .cas⟩) (by rfl), TokenReqgrp.setStat_reqPendingNr]
    exact h.final_eq
  case winner_eq =>
    exact h.winner_setStat hr hInit hsNe
  case flag_stat =>
    -- a failed request was flagged by its own call, or is an old one
    intro hFlag r' hr' hFailed
    rcases mem_modify.mp hr' with ⟨hr', -⟩ | ⟨r₀, -, -, rfl⟩
    · exact h.flag_stat hFlag r' hr' hFailed
    · cases f with
      | true =>
        rw [TokenReqgrp.setStat_failedExist, hCall.flag_written rfl (by simp)] at hFlag
        exact Bool.noConfusion hFlag
      | false => cases hFailed
  case flag_started =>
    exact fun hFlag => exists_failing_cons (by rfl) (h.flag_started hFlag)
  case calls_inv =>
    intro k hk
    rcases Multiset.mem_cons.mp hk with rfl | hk
    · exact {
        winner_valid := fun _ =>
          ⟨{ r with stat := s }, by rw [g.request?_setStat, if_pos rfl, hr]; rfl⟩
        past_init    := by simp [ResolveCall.completed]
        flag_written := fun hf _ => hCall.flag_written hf (by simp)
        verdict      := by simp
        err_eq       := by simp }
    · exact (h.calls_inv k (Multiset.mem_cons_of_mem hk)).setStat hsNe (exists_failing_cons rfl)
        (hNoFinal k (Multiset.mem_cons_of_mem hk))

/-- A compare-and-swap that fails: its request had left `init` before. -/
theorem GroupInv.casLost {g g' : TokenReqgrp Id} {rest : Multiset ResolveCall} {f : Bool} {i : Nat}
    (h : GroupInv g (⟨f, i, .cas⟩ ::ₘ rest))
    (hcas : g.casStat i (if f then .failed else .got) = (g', false)) :
    GroupInv g' (⟨f, i, .returned false .pending⟩ ::ₘ rest) := by
  rcases g.casStat_cases i (if f then .failed else .got) with ⟨_, -, -, e⟩ | ⟨hPast, e⟩
  · rw [e] at hcas
    cases hcas
  rw [e] at hcas
  obtain ⟨rfl, -⟩ := Prod.mk.inj hcas
  constructor
  case distinct =>
    exact h.distinct
  case pending_eq =>
    rw [countP_cons_eq (l := ⟨f, i, .cas⟩) (by rfl)]
    exact h.pending_eq
  case final_eq =>
    rw [countP_cons_eq (l := ⟨f, i, .cas⟩) (by rfl)]
    exact h.final_eq
  case winner_eq =>
    intro j r hr
    rw [countP_cons_eq (l := ⟨f, i, .cas⟩) (by rfl)]
    exact h.winner_eq j r hr
  case flag_stat =>
    exact h.flag_stat
  case flag_started =>
    exact fun hFlag => exists_failing_cons (by rfl) (h.flag_started hFlag)
  case calls_inv =>
    intro k hk
    rcases Multiset.mem_cons.mp hk with rfl | hk
    · constructor
      · simp [ResolveCall.won]
      · exact fun _ => hPast
      · exact fun hf _ => (h.calls_inv _ (Multiset.mem_cons_self _ _)).flag_written hf (by simp)
      · simp
      · simp
    · exact (h.calls_inv k (Multiset.mem_cons_of_mem hk)).mono_of_requests_eq rfl id
        (exists_failing_cons rfl) fun _ => rfl

/-- The winner that moves on has taken its request out of `init`. -/
theorem GroupInv.winner_past {g : TokenReqgrp Id} {l : ResolveCall} {rest : Multiset ResolveCall}
    (h : GroupInv g (l ::ₘ rest)) (hwon : l.won) :
    ∀ r, g.request? l.idx = some r → r.stat ≠ .init := by
  intro r hr hInit
  have := h.winner_eq l.idx r hr
  rw [Multiset.countP_cons_of_pos _ (by simp [ResolveCall.winnerOf, hwon]), if_pos hInit] at this
  omega

/-- A decrement, to zero (`last`) or not. `pc'` is where the call goes next. -/
theorem GroupInv.sub {g : TokenReqgrp Id} {rest : Multiset ResolveCall} {f : Bool} {i : Nat}
    {pc' : ResolvePc} (h : GroupInv g (⟨f, i, .sub⟩ ::ₘ rest))
    (hWon : ResolveCall.won ⟨f, i, pc'⟩ = true) (hSub : pc' ≠ .sub)
    (hFinal : ResolveCall.final ⟨f, i, pc'⟩ = decide (g.subPending.reqPendingNr = 0))
    (hVerdict : ∀ e, (pc' = .write e ∨ ∃ w, pc' = .returned w e ∧ e ≠ .pending) →
      e = .failedNode ∧ f = true)
    (hErr : ∀ w e, pc' = .returned w e → e = .pending) :
    GroupInv g.subPending (⟨f, i, pc'⟩ ::ₘ rest) := by
  have hPending := h.pending_eq
  rw [Multiset.countP_cons_of_pos _ (by simp [ResolveCall.atSub])] at hPending
  push_cast at hPending
  have hNe : g.reqPendingNr ≠ 0 := by omega
  constructor
  case distinct =>
    exact h.distinct
  case pending_eq =>
    rw [Multiset.countP_cons_of_neg _ (by simp [ResolveCall.atSub, hSub]),
      TokenReqgrp.subPending_reqPendingNr, show g.subPending.initNr = g.initNr from rfl]
    omega
  case final_eq =>
    have := h.final_eq
    rw [if_neg hNe, Multiset.countP_cons_of_neg _ (by simp [ResolveCall.final])] at this
    rw [Multiset.countP_cons, hFinal]
    by_cases hz : g.subPending.reqPendingNr = 0
    · rw [if_pos hz, if_pos (decide_eq_true hz)]
      omega
    · rw [if_neg hz, if_neg (by rwa [decide_eq_true_eq])]
      omega
  case winner_eq =>
    intro j r hr
    rw [countP_cons_eq (l := ⟨f, i, .sub⟩) (by
      rw [ResolveCall.winnerOf, ResolveCall.winnerOf, hWon]
      rfl)]
    exact h.winner_eq j r hr
  case flag_stat =>
    exact h.flag_stat
  case flag_started =>
    exact fun hFlag => exists_failing_cons (by rfl) (h.flag_started hFlag)
  case calls_inv =>
    have hMine := h.calls_inv _ (Multiset.mem_cons_self _ _)
    intro k hk
    rcases Multiset.mem_cons.mp hk with rfl | hk
    · constructor
      · exact fun _ => hMine.winner_valid rfl
      · exact fun _ => h.winner_past rfl
      · exact fun hf _ => hMine.flag_written hf (by simp)
      · intro e he
        obtain ⟨rfl, hf⟩ := hVerdict e he
        exact Or.inl ⟨rfl, _, Multiset.mem_cons_self _ _, hf⟩
      · exact fun w e he hne => absurd (hErr w e he) hne
    · exact (h.calls_inv k (Multiset.mem_cons_of_mem hk)).mono_of_requests_eq rfl id
        (exists_failing_cons rfl) fun _ => rfl

/-- The winner that fetched zero is the only final call. -/
theorem GroupInv.rest_not_final {g : TokenReqgrp Id} {l : ResolveCall}
    {rest : Multiset ResolveCall} (h : GroupInv g (l ::ₘ rest)) (hl : l.final = true) :
    (∀ k ∈ rest, k.final = false) ∧ g.reqPendingNr = 0 := by
  have hFinal := h.final_eq
  rw [Multiset.countP_cons_of_pos (p := fun k : ResolveCall => k.final = true) rest hl] at hFinal
  refine ⟨fun k hk => ?_, ?_⟩
  · have := (Multiset.countP_eq_zero (p := (·.final = true))).mp
      (show rest.countP (·.final = true) = 0 by omega) k hk
    simpa using this
  · by_contra hne
    rw [if_neg hne] at hFinal
    omega

/-- The last call of `to_got` reads `failed_exist`. -/
theorem GroupInv.read {g : TokenReqgrp Id} {rest : Multiset ResolveCall} {i : Nat}
    (h : GroupInv g (⟨false, i, .read⟩ ::ₘ rest)) :
    GroupInv g (⟨false, i, .write g.verdictFlag⟩ ::ₘ rest) := by
  constructor
  case distinct =>
    exact h.distinct
  case pending_eq =>
    rw [countP_cons_eq (l := ⟨false, i, .read⟩) (by rfl)]
    exact h.pending_eq
  case final_eq =>
    rw [countP_cons_eq (l := ⟨false, i, .read⟩) (by rfl)]
    exact h.final_eq
  case winner_eq =>
    intro j r hr
    rw [countP_cons_eq (l := ⟨false, i, .read⟩) (by rfl)]
    exact h.winner_eq j r hr
  case flag_stat =>
    exact h.flag_stat
  case flag_started =>
    exact fun hFlag => exists_failing_cons (by rfl) (h.flag_started hFlag)
  case calls_inv =>
    have hMine := h.calls_inv _ (Multiset.mem_cons_self _ _)
    intro k hk
    rcases Multiset.mem_cons.mp hk with rfl | hk
    · constructor
      · exact fun _ => hMine.winner_valid rfl
      · simp [ResolveCall.completed]
      · simp
      · intro e he
        obtain rfl : g.verdictFlag = e := by simpa using he
        unfold TokenReqgrp.verdictFlag
        cases hFlag : g.failedExist with
        | true => exact Or.inl ⟨rfl, exists_failing_cons (by rfl) (h.flag_started hFlag)⟩
        | false => exact Or.inr ⟨rfl, h.flag_stat hFlag⟩
      · simp
    · exact (h.calls_inv k (Multiset.mem_cons_of_mem hk)).mono_of_requests_eq rfl id
        (exists_failing_cons rfl) fun _ => rfl

/-- The last call writes the verdict and returns it. -/
theorem GroupInv.write {g : TokenReqgrp Id} {rest : Multiset ResolveCall} {f : Bool} {i : Nat}
    {e : QosError} (h : GroupInv g (⟨f, i, .write e⟩ ::ₘ rest)) :
    GroupInv (g.setErr e) (⟨f, i, .returned true e⟩ ::ₘ rest) := by
  have hMine := h.calls_inv _ (Multiset.mem_cons_self _ _)
  obtain ⟨hRest, -⟩ := h.rest_not_final rfl
  have hNe : e ≠ .pending := by
    rcases hMine.verdict e (Or.inl rfl) with ⟨rfl, -⟩ | ⟨rfl, -⟩ <;> decide
  constructor
  case distinct =>
    exact h.distinct
  case pending_eq =>
    rw [countP_cons_eq (l := ⟨f, i, .write e⟩) (by rfl)]
    exact h.pending_eq
  case final_eq =>
    rw [countP_cons_eq (l := ⟨f, i, .write e⟩) (by simp [ResolveCall.final, hNe])]
    exact h.final_eq
  case winner_eq =>
    intro j r hr
    rw [countP_cons_eq (l := ⟨f, i, .write e⟩) (by rfl)]
    exact h.winner_eq j r hr
  case flag_stat =>
    exact h.flag_stat
  case flag_started =>
    exact fun hFlag => exists_failing_cons (by rfl) (h.flag_started hFlag)
  case calls_inv =>
    intro k hk
    rcases Multiset.mem_cons.mp hk with rfl | hk
    · constructor
      · exact fun _ => hMine.winner_valid rfl
      · exact fun _ => h.winner_past rfl
      · exact fun hf _ => hMine.flag_written hf (by simp)
      · intro e' he'
        obtain rfl : e = e' := by
          rcases he' with he' | ⟨w, he', -⟩
          · simp at he'
          · simp only [ResolvePc.returned.injEq] at he'
            exact he'.2
        rcases hMine.verdict e (Or.inl rfl) with ⟨he, hF⟩ | ⟨he, hNone⟩
        · exact Or.inl ⟨he, exists_failing_cons (by rfl) hF⟩
        · exact Or.inr ⟨he, hNone⟩
      · intro w e' he' _
        simp only [ResolvePc.returned.injEq] at he'
        exact he'.2
    · refine (h.calls_inv k (Multiset.mem_cons_of_mem hk)).mono_of_requests_eq rfl id
        (exists_failing_cons rfl) fun hfin => ?_
      rw [hRest k hk] at hfin
      exact Bool.noConfusion hfin

/-- **Step lemma**: every atomic step of every call keeps the invariant. -/
theorem GroupInv.step {g g' : TokenReqgrp Id} {l l' : ResolveCall} {rest : Multiset ResolveCall}
    (h : GroupInv g (l ::ₘ rest)) (hs : ResolveStep g l g' l') : GroupInv g' (l' ::ₘ rest) := by
  cases hs with
  | flag => exact h.flag
  | casWon hcas => exact h.casWon hcas
  | casLost hcas => exact h.casLost hcas
  | subMore hne =>
    exact h.sub rfl (by simp) (by rw [decide_eq_false hne]; rfl) (by simp) (by simp)
  | gotLast hz =>
    exact h.sub rfl (by simp) (by rw [decide_eq_true hz]; rfl) (by simp) (by simp)
  | failedLast hz =>
    exact h.sub rfl (by simp) (by rw [decide_eq_true hz]; rfl) (by simp) (by simp)
  | read => exact h.read
  | write => exact h.write

theorem groupInv_of_reachable {n : Nat} {c : Config (TokenReqgrp Id) ResolveCall}
    (h : Reachable (resolveSystem n) c) : GroupInv c.shared c.calls := by
  refine reachable_invariant (I := GroupInv) ?_ ?_ ?_ h
  · rintro g ⟨gid, cache, rsList, pri, cache', hn, hlen, heq⟩
    obtain ⟨hFresh, hNeed, -, -⟩ := TokenReqgrp.tokenReqgrpInit_spec heq
    refine hFresh.groupInv fun hnil => ?_
    have := congrArg List.length hNeed
    simp only [hnil, List.map_nil, List.length_nil, List.length_reverse] at this
    omega
  · exact fun g calls l hI hl => hI.start hl
  · exact fun g g' l l' rest hI hs => hI.step hs

-- ---------------------------------------------------------------------------
-- The verdict
-- ---------------------------------------------------------------------------

/-- A request that has left `init` never changes again. -/
theorem ResolveStep.stat_kept {g g' : TokenReqgrp Id} {l l' : ResolveCall}
    (hs : ResolveStep g l g' l') {i : Nat} {r : TokenReq Id} (hr : g.request? i = some r)
    (hPast : r.stat ≠ .init) : ∃ r', g'.request? i = some r' ∧ r'.stat = r.stat := by
  have hcas : ∀ {j s b}, g.casStat j s = (g', b) →
      ∃ r', g'.request? i = some r' ∧ r'.stat = r.stat := by
    intro j s b hcas
    rcases g.casStat_cases j s with ⟨r₀, hr₀, hInit, e⟩ | ⟨-, e⟩
    · rw [e] at hcas
      obtain ⟨rfl, -⟩ := Prod.mk.inj hcas
      refine ⟨r, ?_, rfl⟩
      rw [TokenReqgrp.request?_setStat, if_neg ?_, hr]
      rintro rfl
      rw [hr] at hr₀
      obtain rfl := Option.some.inj hr₀
      exact hPast hInit
    · rw [e] at hcas
      obtain ⟨rfl, -⟩ := Prod.mk.inj hcas
      exact ⟨r, hr, rfl⟩
  cases hs with
  | casWon h => exact hcas h
  | casLost h => exact hcas h
  | flag | subMore | gotLast | failedLast | read | write => exact ⟨r, hr, rfl⟩

/-- At most one call returns a verdict: a returned verdict is final. -/
theorem GroupInv.decided_le {g : TokenReqgrp Id} {calls : Multiset ResolveCall}
    (h : GroupInv g calls) : calls.countP (·.decided) ≤ 1 := by
  have hFinal := h.final_eq
  have : calls.countP (·.decided) ≤ calls.countP (·.final) := by
    rw [Multiset.countP_eq_card_filter, Multiset.countP_eq_card_filter]
    exact Multiset.card_le_card
      (Multiset.monotone_filter_right _ fun l => ResolveCall.final_of_decided)
  omega

/-- Once every request has been the target of a completed call, and no winner
is still on its way, exactly one call has returned a verdict. -/
theorem GroupInv.decided_eq {g : TokenReqgrp Id} {calls : Multiset ResolveCall}
    (h : GroupInv g calls)
    (hTarget : ∀ r ∈ g.lheadReqgrp, ∃ l ∈ calls, l.idx = r.idx ∧ l.completed = true)
    (hDone : ∀ l ∈ calls, l.won = true → l.completed = true) :
    calls.countP (·.decided) = 1 := by
  -- no request is in `init`, and no call is on its way to the decrement
  have hInitNr : g.initNr = 0 := by
    rw [TokenReqgrp.initNr, List.countP_eq_zero]
    intro r hr
    obtain ⟨l, hl, hidx, hc⟩ := hTarget r hr
    have := (h.calls_inv l hl).past_init hc r (by rw [hidx]; exact lookup_of_mem h.distinct hr)
    simpa using this
  have hSub : calls.countP (·.atSub) = 0 := by
    rw [Multiset.countP_eq_zero]
    intro l hl hsub
    obtain ⟨f, i, pc⟩ := l
    simp only [ResolveCall.atSub, decide_eq_true_eq] at hsub
    subst hsub
    exact Bool.noConfusion (hDone _ hl rfl)
  have hZero : g.reqPendingNr = 0 := by
    rw [h.pending_eq, hInitNr, hSub]
    rfl
  have hFinal := h.final_eq
  rw [if_pos hZero, add_zero] at hFinal
  rw [← hFinal]
  -- a final call has won, hence completed, hence returned its verdict
  exact Multiset.countP_congr rfl fun l hl => by
    rw [ResolveCall.decided_eq_final (hDone l hl)]

/-- **Group resolution under concurrency.** In every interleaving of any number
of `to_got` and `to_failed` calls on a group of `n ≥ 1` requests. -/
theorem group_resolution {n : Nat} {c₀ c : Config (TokenReqgrp Id) ResolveCall}
    {tr : List (Transition (Config (TokenReqgrp Id) ResolveCall) (Move ResolveCall))}
    (hinit : (resolveSystem n).init c₀) (hrun : Run (resolveSystem n) c₀ tr c) :
    -- the counter never goes below zero
    0 ≤ c.shared.reqPendingNr ∧
    -- a request that has left `init` never changes again
    (∀ x ∈ tr, ∀ i r, x.pre.shared.request? i = some r → r.stat ≠ .init →
      ∃ r', x.post.shared.request? i = some r' ∧ r'.stat = r.stat) ∧
    -- at most one call returns something other than `QOS_ERROR_PENDING`
    c.calls.countP (·.decided) ≤ 1 ∧
    -- exactly one does once every request has been the target of a completed
    -- call and the calls that won their compare-and-swap have completed
    ((∀ r ∈ c.shared.lheadReqgrp, ∃ l ∈ c.calls, l.idx = r.idx ∧ l.completed = true) →
      (∀ l ∈ c.calls, l.won = true → l.completed = true) →
      c.calls.countP (·.decided) = 1) ∧
    -- the value returned is the group's `err`, and the right one
    (∀ l ∈ c.calls, ∀ w e, l.pc = .returned w e → e ≠ .pending →
      c.shared.err = e ∧
      ((∃ r ∈ c.shared.lheadReqgrp, r.stat = .failed) → e = .failedNode) ∧
      ((∀ l' ∈ c.calls, l'.failing = false) → e = .ok)) := by
  have hInv := groupInv_of_reachable ⟨c₀, tr, hinit, hrun⟩
  refine ⟨?_, ?_, hInv.decided_le, hInv.decided_eq, ?_⟩
  · rw [hInv.pending_eq]
    omega
  · rintro ⟨⟨g, calls⟩, act, ⟨g', calls'⟩⟩ hx i r hr hPast
    have hst := hrun.step_of_mem _ hx
    cases hst with
    | start => exact ⟨r, hr, rfl⟩
    | run hs => exact hs.stat_kept hr hPast
  · intro l hl w e he hne
    have hCall := hInv.calls_inv l hl
    refine ⟨hCall.err_eq w e he hne, ?_, ?_⟩
    · rintro ⟨r, hr, hFailed⟩
      rcases hCall.verdict e (Or.inr ⟨w, he, hne⟩) with ⟨rfl, -⟩ | ⟨-, hNone⟩
      · rfl
      · exact absurd hFailed (hNone r hr)
    · intro hNoFailing
      rcases hCall.verdict e (Or.inr ⟨w, he, hne⟩) with ⟨-, l', hl', hf⟩ | ⟨rfl, -⟩
      · rw [hNoFailing l' hl'] at hf
        exact Bool.noConfusion hf
      · rfl

/-- A group of one request, for 6 tokens on node 0. -/
def oneRequest : TokenReqgrp Nat :=
  (TokenReqgrp.tokenReqgrpInit 0 (.init 1) [⟨0, 6⟩] 0).1

theorem oneRequest_initial : (resolveSystem 1).init ⟨oneRequest, 0⟩ :=
  ⟨⟨0, .init 1, [⟨0, 6⟩], 0, ⟨1, 1, 0⟩, Nat.le_refl 1, rfl, rfl⟩, rfl⟩

/-- One atomic step of one call, as a step of the interleaving. -/
theorem ResolveStep.move {n : Nat} {g g' : TokenReqgrp Id} {l l' : ResolveCall}
    {rest : Multiset ResolveCall} (h : ResolveStep g l g' l') :
    (resolveSystem n).step ⟨g, l ::ₘ rest⟩ (.run l l') ⟨g', l' ::ₘ rest⟩ := Step.run h

theorem idx_mem {reqs : List (TokenReq Nat)} {l : List Nat} (h : reqs.map TokenReq.idx = l) :
    ∀ r ∈ reqs, r.idx ∈ l := by
  intro r hr
  rw [← h]
  exact List.mem_map_of_mem hr

/-- Two `to_got` calls on the only request: the first wins its compare-and-swap
and pauses, the second loses and returns. -/
theorem run_loser_completes :
    ∃ tr c, Run (resolveSystem 1) ⟨oneRequest, 0⟩ tr c ∧
      c.calls = {⟨false, 0, .returned false .pending⟩, ⟨false, 0, .sub⟩} ∧
      c.shared.lheadReqgrp.map TokenReq.idx = [0] := by
  have hrun := (Run.nil (S := resolveSystem 1) (s := ⟨oneRequest, 0⟩)).snoc
    (Step.start (l := ⟨false, 0, .cas⟩) ⟨Nat.one_pos, Or.inl ⟨rfl, rfl⟩⟩)
    |>.snoc (ResolveStep.move (.casWon rfl))
    |>.snoc (Step.start (l := ⟨false, 0, .cas⟩) ⟨Nat.one_pos, Or.inl ⟨rfl, rfl⟩⟩)
    |>.snoc (ResolveStep.move (.casLost rfl))
  exact ⟨_, _, hrun, rfl, rfl⟩

/-- Without the proviso on the winners no verdict need be there: on that run
every request has been the target of a completed call, and no call has returned
anything but `QOS_ERROR_PENDING`. -/
theorem completed_losers_leave_no_verdict :
    ¬ ∀ (n : Nat) (c₀ c : Config (TokenReqgrp Nat) ResolveCall)
        (tr : List (Transition (Config (TokenReqgrp Nat) ResolveCall) (Move ResolveCall))),
      (resolveSystem n).init c₀ → Run (resolveSystem n) c₀ tr c →
      (∀ r ∈ c.shared.lheadReqgrp, ∃ l ∈ c.calls, l.idx = r.idx ∧ l.completed = true) →
      c.calls.countP (·.decided) = 1 := by
  intro h
  obtain ⟨tr, c, hrun, hCalls, hIdx⟩ := run_loser_completes
  have := h 1 _ c tr oneRequest_initial hrun fun r hr => by
    exact ⟨⟨false, 0, .returned false .pending⟩, by simp [hCalls],
      (List.mem_singleton.mp (idx_mem hIdx r hr)).symm, rfl⟩
  rw [hCalls] at this
  revert this
  decide

/-- A group of two requests, for 6 tokens on node 0 and 2 on node 1. -/
def twoRequestGroup : TokenReqgrp Nat :=
  (TokenReqgrp.tokenReqgrpInit 0 (.init 2) [⟨0, 6⟩, ⟨1, 2⟩] 0).1

theorem twoRequestGroup_initial : (resolveSystem 2).init ⟨twoRequestGroup, 0⟩ :=
  ⟨⟨0, .init 2, [⟨0, 6⟩, ⟨1, 2⟩], 0, ⟨2, 2, 0⟩, by decide, rfl, rfl⟩, rfl⟩

/-- Two `to_got` calls on the first request and a `to_failed` call on the second,
all on their way at once: the last to decrement is a `to_got`, and it returns the
failure. -/
theorem group_resolution_one_fails :
    ∃ tr c, Run (resolveSystem 2) ⟨twoRequestGroup, 0⟩ tr c ∧
      c.calls = {⟨false, 0, .returned true .failedNode⟩, ⟨true, 1, .returned true .pending⟩,
        ⟨false, 0, .returned false .pending⟩} ∧ c.calls.countP (·.decided) = 1 := by
  have hSwap : ({⟨true, 1, .returned true .pending⟩, ⟨false, 0, .returned false .pending⟩,
      ⟨false, 0, .sub⟩} : Multiset ResolveCall) = ⟨false, 0, .sub⟩ ::ₘ
        {⟨true, 1, .returned true .pending⟩, ⟨false, 0, .returned false .pending⟩} := by decide
  have hrun := (Run.nil (S := resolveSystem 2) (s := ⟨twoRequestGroup, 0⟩)).snoc
    (Step.start (l := ⟨false, 0, .cas⟩) ⟨Nat.two_pos, Or.inl ⟨rfl, rfl⟩⟩)
    |>.snoc (ResolveStep.move (.casWon rfl))
    |>.snoc (Step.start (l := ⟨false, 0, .cas⟩) ⟨Nat.two_pos, Or.inl ⟨rfl, rfl⟩⟩)
    |>.snoc (ResolveStep.move (.casLost rfl))
    |>.snoc (Step.start (l := ⟨true, 1, .flag⟩) ⟨Nat.one_lt_two, Or.inr ⟨rfl, rfl⟩⟩)
    |>.snoc (ResolveStep.move .flag) |>.snoc (ResolveStep.move (.casWon rfl))
    |>.snoc (ResolveStep.move (.subMore (by decide)))
    |>.snoc (Step.run_of_eq hSwap (.gotLast rfl))
    |>.snoc (ResolveStep.move .read) |>.snoc (ResolveStep.move .write)
  refine ⟨_, _, hrun, rfl, (group_resolution twoRequestGroup_initial hrun).2.2.2.1 ?_ ?_⟩
  · intro r hr
    have hIdx : r.idx = 1 ∨ r.idx = 0 := by simpa using idx_mem (l := [1, 0]) rfl r hr
    rcases hIdx with h | h
    · exact ⟨⟨true, 1, .returned true .pending⟩, by decide, h.symm, rfl⟩
    · exact ⟨⟨false, 0, .returned false .pending⟩, by decide, h.symm, rfl⟩
  · decide

end DatastorQos
