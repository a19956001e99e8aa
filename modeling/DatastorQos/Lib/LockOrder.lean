import Mathlib.Algebra.Order.BigOperators.Group.Multiset
import Mathlib.Algebra.Ring.Nat
import Mathlib.Algebra.Order.Group.Nat
import Mathlib.Data.Finset.Max
import DatastorQos.Lib.Runs

/-!
# LockOrder — locks taken in order are no deadlock

A `Skeleton` is what is left of a piece of code when only its locks are looked
at: it takes a lock, does something, and gives the lock back; it branches; it
loops. Any number of threads run skeletons. A lock is taken by one thread alone
or shared by several, and nobody comes to share it while a thread waits to have
it alone (the stricter one of the two ways to treat waiting writers).

Locks have ranks. If no thread asks for a lock of a rank it holds or of a lower
one (`Skeleton.Ordered`), then every state the threads can get to lets all of
them run to their end (`can_finish`): of the locks somebody waits for, nobody
holds one of the highest rank.

A lock may need another one to be held around it (`Skeleton.Guarded`). Who holds
that one alone keeps all others out of what it guards (`guarded_apart`).
-/

namespace DatastorQos.LockOrder

open DatastorQos.Runs

universe u

inductive LockMode where
  | shared
  | exclusive
  deriving DecidableEq, Repr

/-- The locks a piece of code takes. -/
inductive Skeleton (Λ : Type u) where
  | skip
  | seq (a b : Skeleton Λ)
  /-- one of the two -/
  | alt (a b : Skeleton Λ)
  /-- any number of times -/
  | loop (a : Skeleton Λ)
  /-- with the lock held -/
  | hold (mode : LockMode) (l : Λ) (body : Skeleton Λ)

/-- What a thread has to do next. -/
inductive Task (Λ : Type u) where
  | todo (s : Skeleton Λ)
  | unlock (mode : LockMode) (l : Λ)

/-- A thread is what it still has to do; it holds what it is going to unlock. -/
abbrev Thread (Λ : Type u) := List (Task Λ)

variable {Λ : Type u}

namespace Skeleton

/-- One after the other. -/
def all (l : List (Skeleton Λ)) : Skeleton Λ := l.foldr seq skip

/-- Every lock is of rank `n` or more, and above those held around it. -/
def Ordered (rank : Λ → Nat) : Nat → Skeleton Λ → Prop
  | _, skip => True
  | n, seq a b => Ordered rank n a ∧ Ordered rank n b
  | n, alt a b => Ordered rank n a ∧ Ordered rank n b
  | n, loop a => Ordered rank n a
  | n, hold _ l body => n ≤ rank l ∧ Ordered rank (rank l + 1) body

variable {rank : Λ → Nat} {n : Nat}

@[simp] theorem ordered_skip : Ordered rank n skip := trivial

@[simp] theorem ordered_seq {a b : Skeleton Λ} :
    Ordered rank n (seq a b) ↔ Ordered rank n a ∧ Ordered rank n b := Iff.rfl

@[simp] theorem ordered_alt {a b : Skeleton Λ} :
    Ordered rank n (alt a b) ↔ Ordered rank n a ∧ Ordered rank n b := Iff.rfl

@[simp] theorem ordered_loop {a : Skeleton Λ} : Ordered rank n (loop a) ↔ Ordered rank n a := Iff.rfl

@[simp] theorem ordered_hold {mode : LockMode} {l : Λ} {body : Skeleton Λ} :
    Ordered rank n (hold mode l body) ↔ n ≤ rank l ∧ Ordered rank (rank l + 1) body := Iff.rfl

@[simp] theorem ordered_all {l : List (Skeleton Λ)} :
    Ordered rank n (all l) ↔ ∀ s ∈ l, Ordered rank n s := by
  induction l with
  | nil => simp [all]
  | cons s l ih =>
    rw [show all (s :: l) = seq s (all l) from rfl, ordered_seq, ih, List.forall_mem_cons]

/-- With the locks `held` around it, every lock is taken where the one it needs
is held. -/
def Guarded (needs : Λ → Option Λ) : List Λ → Skeleton Λ → Prop
  | _, skip => True
  | held, seq a b => Guarded needs held a ∧ Guarded needs held b
  | held, alt a b => Guarded needs held a ∧ Guarded needs held b
  | held, loop a => Guarded needs held a
  | held, hold _ l body => (∀ g ∈ needs l, g ∈ held) ∧ Guarded needs (l :: held) body

variable {needs : Λ → Option Λ} {held : List Λ}

@[simp] theorem guarded_skip : Guarded needs held skip := trivial

@[simp] theorem guarded_seq {a b : Skeleton Λ} :
    Guarded needs held (seq a b) ↔ Guarded needs held a ∧ Guarded needs held b := Iff.rfl

@[simp] theorem guarded_alt {a b : Skeleton Λ} :
    Guarded needs held (alt a b) ↔ Guarded needs held a ∧ Guarded needs held b := Iff.rfl

@[simp] theorem guarded_loop {a : Skeleton Λ} :
    Guarded needs held (loop a) ↔ Guarded needs held a := Iff.rfl

@[simp] theorem guarded_hold {mode : LockMode} {l : Λ} {body : Skeleton Λ} :
    Guarded needs held (hold mode l body) ↔
      (∀ g ∈ needs l, g ∈ held) ∧ Guarded needs (l :: held) body := Iff.rfl

@[simp] theorem guarded_all {l : List (Skeleton Λ)} :
    Guarded needs held (all l) ↔ ∀ s ∈ l, Guarded needs held s := by
  induction l with
  | nil => simp [all]
  | cons s l ih =>
    rw [show all (s :: l) = seq s (all l) from rfl, guarded_seq, ih, List.forall_mem_cons]

/-- An upper bound of the steps to the end, if no loop is entered. -/
def weight : Skeleton Λ → Nat
  | skip => 1
  | seq a b => a.weight + b.weight + 1
  | alt a b => a.weight + b.weight + 1
  | loop a => a.weight + 1
  | hold _ _ body => body.weight + 2

theorem weight_pos (s : Skeleton Λ) : 0 < s.weight := by
  cases s <;> simp [weight]

end Skeleton

namespace Thread

open Skeleton

def Holds (k : Thread Λ) (mode : LockMode) (l : Λ) : Prop := Task.unlock mode l ∈ k

/-- The thread is about to take the lock. -/
def Wants (k : Thread Λ) (mode : LockMode) (l : Λ) : Prop :=
  ∃ body rest, k = .todo (.hold mode l body) :: rest

/-- A step that does not depend on other threads. -/
inductive Quiet : Thread Λ → Thread Λ → Prop where
  | skip {k : Thread Λ} : Quiet (.todo .skip :: k) k
  | seq {a b : Skeleton Λ} {k : Thread Λ} :
      Quiet (.todo (.seq a b) :: k) (.todo a :: .todo b :: k)
  | left {a b : Skeleton Λ} {k : Thread Λ} : Quiet (.todo (.alt a b) :: k) (.todo a :: k)
  | right {a b : Skeleton Λ} {k : Thread Λ} : Quiet (.todo (.alt a b) :: k) (.todo b :: k)
  | again {a : Skeleton Λ} {k : Thread Λ} :
      Quiet (.todo (.loop a) :: k) (.todo a :: .todo (.loop a) :: k)
  | leave {a : Skeleton Λ} {k : Thread Λ} : Quiet (.todo (.loop a) :: k) k
  | unlock {mode : LockMode} {l : Λ} {k : Thread Λ} : Quiet (.unlock mode l :: k) k

/-- The rank the next lock must have at least. -/
def floor (rank : Λ → Nat) : Thread Λ → Nat
  | [] => 0
  | .todo _ :: k => floor rank k
  | .unlock _ l :: _ => rank l + 1

/-- The locks held are of rising rank, and what is still to be done is above
those held meanwhile. -/
def Good (rank : Λ → Nat) : Thread Λ → Prop
  | [] => True
  | .todo s :: k => s.Ordered rank (floor rank k) ∧ Good rank k
  | .unlock _ l :: k => floor rank k ≤ rank l ∧ Good rank k

def weight : Thread Λ → Nat
  | [] => 0
  | .todo s :: k => s.weight + weight k
  | .unlock _ _ :: k => 1 + weight k

/-- The rank of the lock a thread waits for. -/
def wantedRank (rank : Λ → Nat) : Thread Λ → Nat
  | .todo (.hold _ l _) :: _ => rank l
  | _ => 0

variable {rank : Λ → Nat} {k k' : Thread Λ} {mode : LockMode} {l : Λ}

theorem Wants.rank_eq (h : k.Wants mode l) : wantedRank rank k = rank l := by
  obtain ⟨body, rest, rfl⟩ := h
  rfl

theorem Quiet.good (h : Quiet k k') (hk : Good rank k) : Good rank k' := by
  cases h with
  | skip => exact hk.2
  | seq => exact ⟨hk.1.1, hk.1.2, hk.2⟩
  | left => exact ⟨hk.1.1, hk.2⟩
  | right => exact ⟨hk.1.2, hk.2⟩
  | again => exact ⟨hk.1, hk⟩
  | leave => exact hk.2
  | unlock => exact hk.2

/-- A lock that a thread holds is of lower rank than what it may take next. -/
theorem Good.rank_lt_floor (hk : Good rank k) (hHolds : k.Holds mode l) : rank l < floor rank k := by
  induction k with
  | nil => cases hHolds
  | cons task k ih =>
    cases task with
    | todo s =>
      refine ih hk.2 ?_
      rcases List.mem_cons.mp hHolds with h | h
      · cases h
      · exact h
    | unlock mode' l' =>
      rcases List.mem_cons.mp hHolds with h | h
      · obtain ⟨-, rfl⟩ := Task.unlock.inj h
        exact Nat.lt_succ_self _
      · exact Nat.lt_succ_of_lt (Nat.lt_of_lt_of_le (ih hk.2 h) hk.1)

/-- A thread that waits holds only locks of lower rank. -/
theorem Good.rank_lt {mode' : LockMode} {l' : Λ} (hk : Good rank k) (hHolds : k.Holds mode l)
    (hWants : k.Wants mode' l') : rank l < rank l' := by
  obtain ⟨body, rest, rfl⟩ := hWants
  exact Nat.lt_of_lt_of_le (hk.rank_lt_floor hHolds) hk.1.1

theorem weight_eq_zero_iff : k.weight = 0 ↔ k = [] := by
  cases k with
  | nil => simp [weight]
  | cons task k =>
    cases task with
    | todo s =>
      have := s.weight_pos
      simp only [weight, reduceCtorEq, iff_false]
      omega
    | unlock mode l => simp [weight]

/-- A thread that is not at its end waits for a lock, or comes nearer to its
end. -/
theorem wants_or_quiet (h : k ≠ []) :
    (∃ mode l, k.Wants mode l) ∨ ∃ k', Quiet k k' ∧ weight k' < weight k := by
  obtain ⟨task, k, rfl⟩ := List.exists_cons_of_ne_nil h
  cases task with
  | unlock mode l => exact Or.inr ⟨_, .unlock, by simp [weight]⟩
  | todo s =>
    cases s with
    | skip => exact Or.inr ⟨_, .skip, by simp [weight, Skeleton.weight]⟩
    | seq a b => exact Or.inr ⟨_, .seq, by simp only [weight, Skeleton.weight]; omega⟩
    | alt a b => exact Or.inr ⟨_, .left, by simp only [weight, Skeleton.weight]; omega⟩
    | loop a => exact Or.inr ⟨_, .leave, by simp only [weight, Skeleton.weight]; omega⟩
    | hold mode l body => exact Or.inl ⟨mode, l, body, k, rfl⟩

/-- The locks held. -/
def held : Thread Λ → List Λ
  | [] => []
  | .todo _ :: k => held k
  | .unlock _ l :: k => l :: held k

theorem mem_held : l ∈ held k ↔ ∃ mode, k.Holds mode l := by
  induction k with
  | nil => simp [held, Holds]
  | cons task k ih =>
    unfold Holds at ih ⊢
    cases task with
    | todo s => simp [held, ih]
    | unlock mode' l' =>
      simp only [held, List.mem_cons, ih, Task.unlock.injEq]
      constructor
      · rintro (rfl | ⟨mode, h⟩)
        · exact ⟨mode', Or.inl ⟨rfl, rfl⟩⟩
        · exact ⟨mode, Or.inr h⟩
      · rintro ⟨mode, ⟨-, rfl⟩ | h⟩
        · exact Or.inl rfl
        · exact Or.inr ⟨mode, h⟩

/-- What is held and what is still to be done is guarded. -/
def Safe (needs : Λ → Option Λ) : Thread Λ → Prop
  | [] => True
  | .todo s :: k => s.Guarded needs (held k) ∧ Safe needs k
  | .unlock _ l :: k => (∀ g ∈ needs l, g ∈ held k) ∧ Safe needs k

variable {needs : Λ → Option Λ}

theorem Quiet.safe (h : Quiet k k') (hk : Safe needs k) : Safe needs k' := by
  cases h with
  | skip => exact hk.2
  | seq => exact ⟨hk.1.1, hk.1.2, hk.2⟩
  | left => exact ⟨hk.1.1, hk.2⟩
  | right => exact ⟨hk.1.2, hk.2⟩
  | again => exact ⟨hk.1, hk⟩
  | leave => exact hk.2
  | unlock => exact hk.2

theorem Safe.guard_mem (hk : Safe needs k) {g : Λ} (hNeeds : needs l = some g) (hl : l ∈ held k) :
    g ∈ held k := by
  induction k with
  | nil => cases hl
  | cons task k ih =>
    cases task with
    | todo s => exact ih hk.2 hl
    | unlock mode l' =>
      rcases List.mem_cons.mp hl with rfl | h
      · exact List.mem_cons_of_mem _ (hk.1 g hNeeds)
      · exact List.mem_cons_of_mem _ (ih hk.2 h)

@[simp] theorem holds_todo {s : Skeleton Λ} :
    Holds (.todo s :: k) mode l ↔ k.Holds mode l := by
  simp [Holds]

@[simp] theorem holds_unlock {mode' : LockMode} {l' : Λ} :
    Holds (.unlock mode' l' :: k) mode l ↔ (mode = mode' ∧ l = l') ∨ k.Holds mode l := by
  simp [Holds]

/-- A step that waits for nobody takes no lock. -/
theorem Quiet.holds (h : Quiet k k') (hHolds : k'.Holds mode l) : k.Holds mode l := by
  cases h with
  | unlock => exact holds_unlock.mpr (Or.inr hHolds)
  | _ => simpa using hHolds

/-- What one of the two holds alone, the other does not hold. -/
def Apart (k k' : Thread Λ) : Prop :=
  ∀ l mode, ¬ (k.Holds .exclusive l ∧ k'.Holds mode l) ∧ ¬ (k'.Holds .exclusive l ∧ k.Holds mode l)

theorem Apart.symm (h : Apart k k') : Apart k' k := fun l mode => (h l mode).symm

theorem Apart.mono {k₁ : Thread Λ} (h : Apart k k')
    (hMono : ∀ mode l, k₁.Holds mode l → k.Holds mode l) : Apart k₁ k' :=
  fun l mode => ⟨fun hc => (h l mode).1 ⟨hMono _ _ hc.1, hc.2⟩,
    fun hc => (h l mode).2 ⟨hc.1, hMono _ _ hc.2⟩⟩

end Thread

-- ---------------------------------------------------------------------------
-- Any number of threads
-- ---------------------------------------------------------------------------

/-- The lock can be taken. -/
structure Free (threads : Multiset (Thread Λ)) (mode : LockMode) (l : Λ) : Prop where
  alone  : ∀ k ∈ threads, ¬ k.Holds .exclusive l
  empty  : mode = .exclusive → ∀ k ∈ threads, ¬ k.Holds .shared l
  behind : mode = .shared → ∀ k ∈ threads, ¬ k.Wants .exclusive l

inductive LockMove where
  | start
  | run

inductive LockStep (starts : Skeleton Λ → Prop) :
    Multiset (Thread Λ) → LockMove → Multiset (Thread Λ) → Prop where
  | start {threads : Multiset (Thread Λ)} {s : Skeleton Λ} :
      starts s → LockStep starts threads .start ([.todo s] ::ₘ threads)
  | quiet {threads : Multiset (Thread Λ)} {k k' : Thread Λ} :
      k.Quiet k' → LockStep starts (k ::ₘ threads) .run (k' ::ₘ threads)
  | lock {threads : Multiset (Thread Λ)} {mode : LockMode} {l : Λ} {body : Skeleton Λ}
      {rest : Thread Λ} :
      Free ((.todo (.hold mode l body) :: rest) ::ₘ threads) mode l →
      LockStep starts ((.todo (.hold mode l body) :: rest) ::ₘ threads) .run
        ((.todo body :: .unlock mode l :: rest) ::ₘ threads)

/-- Threads that start with any of the skeletons `starts`, at any time. -/
def lockSystem (starts : Skeleton Λ → Prop) : System (Multiset (Thread Λ)) LockMove where
  init threads := threads = 0
  step := LockStep starts

variable {rank : Λ → Nat} {starts : Skeleton Λ → Prop} {threads threads' : Multiset (Thread Λ)}

def AllGood (rank : Λ → Nat) (threads : Multiset (Thread Λ)) : Prop :=
  ∀ k ∈ threads, k.Good rank

theorem LockStep.good (hStarts : ∀ s, starts s → s.Ordered rank 0) {move : LockMove}
    (h : LockStep starts threads move threads') (hGood : AllGood rank threads) :
    AllGood rank threads' := by
  cases h with
  | start hs => exact Multiset.forall_mem_cons.mpr ⟨⟨hStarts _ hs, trivial⟩, hGood⟩
  | quiet hQuiet =>
    obtain ⟨hk, hRest⟩ := Multiset.forall_mem_cons.mp hGood
    exact Multiset.forall_mem_cons.mpr ⟨hQuiet.good hk, hRest⟩
  | lock hFree =>
    obtain ⟨⟨⟨hFloor, hBody⟩, hRest⟩, hOthers⟩ := Multiset.forall_mem_cons.mp hGood
    exact Multiset.forall_mem_cons.mpr ⟨⟨hBody, hFloor, hRest⟩, hOthers⟩

/-- Any two threads. -/
def AllApart (threads : Multiset (Thread Λ)) : Prop :=
  ∀ k rest, threads = k ::ₘ rest → ∀ k' ∈ rest, k.Apart k'

/-- A thread that is apart from all others joins them. -/
theorem AllApart.cons {k : Thread Λ} (h : AllApart threads) (hk : ∀ k' ∈ threads, k.Apart k') :
    AllApart (k ::ₘ threads) := by
  intro k₁ rest heq k₂ hk₂
  rcases Multiset.cons_eq_cons.mp heq with ⟨rfl, rfl⟩ | ⟨-, others, rfl, rfl⟩
  · exact hk k₂ hk₂
  · rcases Multiset.mem_cons.mp hk₂ with rfl | hk₂
    · exact (hk k₁ (Multiset.mem_cons_self k₁ others)).symm
    · exact h k₁ others rfl k₂ hk₂

theorem AllApart.tail {k : Thread Λ} (h : AllApart (k ::ₘ threads)) : AllApart threads := by
  rintro k₁ rest rfl k₂ hk₂
  exact h k₁ (k ::ₘ rest) (Multiset.cons_swap k k₁ rest) k₂ (Multiset.mem_cons_of_mem hk₂)

theorem LockStep.apart {move : LockMove} (h : LockStep starts threads move threads')
    (hApart : AllApart threads) : AllApart threads' := by
  cases h with
  | start hs =>
    refine hApart.cons fun k' _ l mode => ?_
    simp [Thread.Holds]
  | @quiet threads k k' hQuiet =>
    refine hApart.tail.cons fun k₁ hk₁ => ?_
    exact (hApart k threads rfl k₁ hk₁).mono fun _ _ => hQuiet.holds
  | @lock threads mode l body rest hFree =>
    refine hApart.tail.cons fun k₁ hk₁ l' mode' => ?_
    have hOld := hApart _ threads rfl k₁ hk₁ l' mode'
    have hMem : k₁ ∈ (.todo (.hold mode l body) :: rest) ::ₘ threads := Multiset.mem_cons_of_mem hk₁
    have hHolds : ∀ mode', Thread.Holds (.todo body :: .unlock mode l :: rest) mode' l' →
        (mode' = mode ∧ l' = l) ∨ Thread.Holds (.todo (.hold mode l body) :: rest) mode' l' := by
      intro mode' h
      simpa using h
    constructor
    · rintro ⟨h, h₁⟩
      rcases hHolds _ h with ⟨rfl, rfl⟩ | h
      · cases mode' with
        | shared => exact hFree.empty rfl k₁ hMem h₁
        | exclusive => exact hFree.alone k₁ hMem h₁
      · exact hOld.1 ⟨h, h₁⟩
    · rintro ⟨h₁, h⟩
      rcases hHolds _ h with ⟨rfl, rfl⟩ | h
      · exact hFree.alone k₁ hMem h₁
      · exact hOld.2 ⟨h₁, h⟩

def AllSafe (needs : Λ → Option Λ) (threads : Multiset (Thread Λ)) : Prop :=
  ∀ k ∈ threads, k.Safe needs

theorem LockStep.safe {needs : Λ → Option Λ} (hStarts : ∀ s, starts s → s.Guarded needs [])
    {move : LockMove} (h : LockStep starts threads move threads') (hSafe : AllSafe needs threads) :
    AllSafe needs threads' := by
  cases h with
  | start hs => exact Multiset.forall_mem_cons.mpr ⟨⟨hStarts _ hs, trivial⟩, hSafe⟩
  | quiet hQuiet =>
    obtain ⟨hk, hRest⟩ := Multiset.forall_mem_cons.mp hSafe
    exact Multiset.forall_mem_cons.mpr ⟨hQuiet.safe hk, hRest⟩
  | lock hFree =>
    obtain ⟨⟨⟨hGuard, hBody⟩, hRest⟩, hOthers⟩ := Multiset.forall_mem_cons.mp hSafe
    exact Multiset.forall_mem_cons.mpr ⟨⟨hBody, hGuard, hRest⟩, hOthers⟩

/-- **Guards work.** Where a thread holds a guard alone, no other one holds a
lock that needs it. -/
theorem guarded_apart {needs : Λ → Option Λ} (hStarts : ∀ s, starts s → s.Guarded needs [])
    {k : Thread Λ} {rest : Multiset (Thread Λ)} (h : Reachable (lockSystem starts) (k ::ₘ rest))
    {g l : Λ} (hHolds : k.Holds .exclusive g) (hNeeds : needs l = some g) {k' : Thread Λ}
    (hk' : k' ∈ rest) {mode : LockMode} : ¬ k'.Holds mode l := by
  have hInv : AllApart (k ::ₘ rest) ∧ AllSafe needs (k ::ₘ rest) := by
    refine h.invariant (I := fun t => AllApart t ∧ AllSafe needs t) ?_ fun s move t hs hStep => ?_
    · rintro _ rfl
      exact ⟨fun k rest heq => absurd heq.symm (Multiset.cons_ne_zero), fun k hk =>
        absurd hk (Multiset.notMem_zero k)⟩
    · have hStep' : LockStep starts s move t := hStep
      exact ⟨hStep'.apart hs.1, hStep'.safe hStarts hs.2⟩
  intro hl
  have hSafe := hInv.2 k' (Multiset.mem_cons_of_mem hk')
  obtain ⟨mode', hg⟩ := Thread.mem_held.mp (hSafe.guard_mem hNeeds (Thread.mem_held.mpr ⟨mode, hl⟩))
  exact (hInv.1 k rest rfl k' hk' g mode').1 ⟨hHolds, hg⟩

def totalWeight (threads : Multiset (Thread Λ)) : Nat := (threads.map Thread.weight).sum

theorem totalWeight_cons (k : Thread Λ) (threads : Multiset (Thread Λ)) :
    totalWeight (k ::ₘ threads) = k.weight + totalWeight threads := by
  unfold totalWeight
  rw [Multiset.map_cons, Multiset.sum_cons]

/-- A thread whose lock is free takes it. -/
theorem Thread.Wants.step {k : Thread Λ} (hk : k ∈ threads) {mode : LockMode} {l : Λ}
    (hWants : k.Wants mode l) (hFree : Free threads mode l) :
    ∃ threads', LockStep starts threads .run threads' ∧
      totalWeight threads' < totalWeight threads := by
  obtain ⟨others, rfl⟩ := Multiset.exists_cons_of_mem hk
  obtain ⟨body, rest, rfl⟩ := hWants
  refine ⟨_, .lock hFree, ?_⟩
  rw [totalWeight_cons, totalWeight_cons]
  simp only [Thread.weight, Skeleton.weight]
  omega

/-- **Some thread can go on**, towards its end. -/
theorem exists_step (starts : Skeleton Λ → Prop) (hGood : AllGood rank threads)
    (hLeft : totalWeight threads ≠ 0) :
    ∃ threads', LockStep starts threads .run threads' ∧
      totalWeight threads' < totalWeight threads := by
  classical
  by_cases hQuiet : ∃ k ∈ threads, ∃ k', k.Quiet k' ∧ k'.weight < k.weight
  · obtain ⟨k, hk, k', hStep, hLess⟩ := hQuiet
    obtain ⟨others, rfl⟩ := Multiset.exists_cons_of_mem hk
    refine ⟨_, .quiet hStep, ?_⟩
    rw [totalWeight_cons, totalWeight_cons]
    omega
  · -- all that are not at their end wait
    have hWaits : ∀ k ∈ threads, k ≠ [] → ∃ l mode, k.Wants mode l := by
      intro k hk hne
      rcases Thread.wants_or_quiet hne with ⟨mode, l, hWants⟩ | ⟨k', hStep, hLess⟩
      · exact ⟨l, mode, hWants⟩
      · exact absurd ⟨k, hk, k', hStep, hLess⟩ hQuiet
    obtain ⟨k₀, hk₀, hne₀⟩ : ∃ k ∈ threads, k ≠ [] := by
      by_contra hNone
      refine hLeft (Multiset.sum_eq_zero_iff.mpr fun n hn => ?_)
      obtain ⟨k, hk, rfl⟩ := Multiset.mem_map.mp hn
      exact Thread.weight_eq_zero_iff.mpr (not_not.mp fun hne => hNone ⟨k, hk, hne⟩)
    -- of the locks waited for, one of the highest rank
    obtain ⟨k, hk, hMax⟩ := Finset.exists_max_image (threads.toFinset.filter (· ≠ []))
      (Thread.wantedRank rank) ⟨k₀, Finset.mem_filter.mpr ⟨Multiset.mem_toFinset.mpr hk₀, hne₀⟩⟩
    obtain ⟨hk, hne⟩ := Finset.mem_filter.mp hk
    rw [Multiset.mem_toFinset] at hk
    obtain ⟨l, mode, hWants⟩ := hWaits k hk hne
    -- nobody holds it
    have hNobody : ∀ k' ∈ threads, ∀ mode', ¬ k'.Holds mode' l := by
      intro k' hk' mode' hHolds
      have hne' : k' ≠ [] := List.ne_nil_of_mem hHolds
      obtain ⟨l', mode'', hWants'⟩ := hWaits k' hk' hne'
      have hLess := (hGood k' hk').rank_lt hHolds hWants'
      have hLe := hMax k' (Finset.mem_filter.mpr ⟨Multiset.mem_toFinset.mpr hk', hne'⟩)
      rw [hWants.rank_eq, hWants'.rank_eq] at hLe
      omega
    by_cases hWriter : ∃ k' ∈ threads, k'.Wants .exclusive l
    · obtain ⟨k', hk', hWants'⟩ := hWriter
      exact hWants'.step hk' ⟨fun x hx => hNobody x hx _, fun _ x hx => hNobody x hx _,
        fun hMode => by cases hMode⟩
    · refine hWants.step hk ⟨fun x hx => hNobody x hx _, fun _ x hx => hNobody x hx _, ?_⟩
      exact fun _ x hx hWants' => hWriter ⟨x, hx, hWants'⟩

/-- **No deadlock.** Whatever the threads did so far, all of them can run to
their end. -/
theorem can_finish (hStarts : ∀ s, starts s → s.Ordered rank 0)
    (h : Reachable (lockSystem starts) threads) :
    ∃ tr done, Run (lockSystem starts) threads tr done ∧ (∀ x ∈ tr, x.act = .run) ∧
      ∀ k ∈ done, k = [] := by
  have hGood : AllGood rank threads := by
    refine h.invariant ?_ fun s move t hs hStep =>
      LockStep.good hStarts (show LockStep starts s move t from hStep) hs
    rintro _ rfl k hk
    exact absurd hk (Multiset.notMem_zero k)
  obtain ⟨tr, done, hRun, hMoves, -, hz⟩ := Run.exists_of_progress (S := lockSystem starts)
    (I := AllGood rank) (Q := fun x => x.act = .run) (μ := totalWeight)
    (fun s hs hne => by
      obtain ⟨t, hStep, hLess⟩ := exists_step starts hs hne
      exact ⟨.run, t, hStep, rfl, hStep.good hStarts hs, hLess⟩) hGood
  refine ⟨tr, done, hRun, hMoves, fun k hk => ?_⟩
  have hWeight : k.weight = 0 :=
    Multiset.sum_eq_zero_iff.mp hz _ (Multiset.mem_map_of_mem _ hk)
  exact Thread.weight_eq_zero_iff.mp hWeight

end DatastorQos.LockOrder
