import Mathlib.Data.ENat.Basic
import Mathlib.Algebra.BigOperators.Group.List.Basic

/-!
# TopUp — a remainder offered to one slot after the other

Each slot was offered an amount and accepted it up to its cap. A remainder then
goes to the slots in order, in arithmetic modulo `m`: a slot is offered its first
offer and all that is left on top, accepts that up to its cap, and what it does
not accept is left for the next. It ends when nothing is left.

A slot that could not take its first offer has an excess, which counts as offered
and comes back as left over: `topUp_within_iff` says when no more is accepted in
the end than the remainder adds to what was accepted at first.
-/

namespace DatastorQos.TopUp

structure Slot where
  offer : ℕ
  cap   : Option ℕ

namespace Slot

/-- What the slot accepts of an offer. -/
def accept (x : Slot) (quota : ℕ) : ℕ :=
  match x.cap with
  | some cap => min cap quota
  | none => quota

/-- What it accepted at first, -/
def accepted (x : Slot) : ℕ := x.accept x.offer

/-- what it could not take, -/
def excess (x : Slot) : ℕ := x.offer - x.accepted

/-- and what it still can take. -/
def room (x : Slot) : ℕ∞ :=
  match x.cap with
  | some cap => ((cap - x.offer : ℕ) : ℕ∞)
  | none => ⊤

theorem accept_le (x : Slot) (quota : ℕ) : x.accept quota ≤ quota := by
  unfold accept
  split
  · exact Nat.min_le_right _ _
  · exact Nat.le_refl _

theorem accepted_add_excess (x : Slot) : x.accepted + x.excess = x.offer := by
  have := x.accept_le x.offer
  unfold excess accepted
  omega

/-- A slot offered `left` on top takes it whole: it took its first offer whole,
and has room. -/
theorem room_of_whole {x : Slot} {left : ℕ} (h : x.accept (x.offer + left) = x.offer + left) :
    x.excess = 0 ∧ (left : ℕ∞) ≤ x.room := by
  unfold excess accepted room accept at *
  split at h
  · rename_i cap hCap
    simp only [Nat.cast_le]
    omega
  · exact ⟨by omega, le_top⟩

/-- A slot offered `left` on top does not take it whole: the rest is what exceeds
its room. -/
theorem room_of_rest {x : Slot} {left : ℕ} (h : x.accept (x.offer + left) < x.offer + left) :
    ((x.offer + left - x.accept (x.offer + left) : ℕ) : ℕ∞) + x.room = left + x.excess := by
  unfold excess accepted room accept at *
  split at h
  · norm_cast
    omega
  · exact absurd h (Nat.lt_irrefl _)

end Slot

variable {α : Type*} (slot : α → Slot) (m : ℕ)

/-- The slots that were served, with what they accepted, and what is left. -/
def topUp : List α → ℕ → List (α × ℕ) × ℕ
  | [], left => ([], left)
  | a :: as, left =>
    let quota := ((slot a).offer + left) % m
    let taken := (slot a).accept quota
    if quota - taken = 0 then ([(a, taken)], 0)
    else ((a, taken) :: (topUp as (quota - taken)).1, (topUp as (quota - taken)).2)

/-- What the slots served accepted in the end, -/
def accepts (dealt : List (α × ℕ)) : ℕ := (dealt.map (·.2)).sum

/-- and what they had accepted at first. -/
def acceptedBefore (dealt : List (α × ℕ)) : ℕ := (dealt.map fun d => (slot d.1).accepted).sum

def excesses (as : List α) : ℕ := (as.map fun a => (slot a).excess).sum

def rooms (as : List α) : ℕ∞ := (as.map fun a => (slot a).room).sum

/-- The first slots have no excess, and room for all that is left. -/
def TakenFirst (as : List α) (left : ℕ) : Prop :=
  ∃ before, before <+: as ∧ before ≠ [] ∧ (∀ a ∈ before, (slot a).excess = 0) ∧
    (left : ℕ∞) ≤ rooms slot before

/-- The slots `before` are filled up, and something is left then: what was left at
first, and the excesses, are more than their rooms. -/
def Passed (before : List α) (left : ℕ) : Prop :=
  ∀ part, part <+: before → part ≠ [] →
    rooms slot part < ((left + excesses slot part : ℕ) : ℕ∞)

/-- An offer wraps. -/
def Overflows (as : List α) (left : ℕ) : Prop :=
  ∃ before a, before ++ [a] <+: as ∧ Passed slot before left ∧
    (m : ℕ∞) + rooms slot before ≤ (((slot a).offer + left + excesses slot before : ℕ) : ℕ∞)

variable {slot m} {a : α} {as : List α} {left : ℕ}

-- ---------------------------------------------------------------------------
-- One slot
-- ---------------------------------------------------------------------------

@[simp] theorem topUp_nil (left : ℕ) : topUp slot m [] left = ([], left) := rfl

/-- One slot, and those after it if something is left. -/
theorem topUp_cons (a : α) (as : List α) (left : ℕ) :
    topUp slot m (a :: as) left =
      let quota := ((slot a).offer + left) % m
      let taken := (slot a).accept quota
      if quota - taken = 0 then ([(a, taken)], 0)
      else ((a, taken) :: (topUp slot m as (quota - taken)).1,
        (topUp slot m as (quota - taken)).2) := rfl

@[simp] theorem rooms_nil : rooms slot ([] : List α) = 0 := rfl

@[simp] theorem rooms_cons : rooms slot (a :: as) = (slot a).room + rooms slot as := by
  simp [rooms]

@[simp] theorem excesses_nil : excesses slot ([] : List α) = 0 := rfl

@[simp] theorem excesses_cons : excesses slot (a :: as) = (slot a).excess + excesses slot as := by
  simp [excesses]

@[simp] theorem accepts_cons {d : α × ℕ} {dealt : List (α × ℕ)} :
    accepts (d :: dealt) = d.2 + accepts dealt := by
  simp [accepts]

@[simp] theorem acceptedBefore_cons {d : α × ℕ} {dealt : List (α × ℕ)} :
    acceptedBefore slot (d :: dealt) = (slot d.1).accepted + acceptedBefore slot dealt := by
  simp [acceptedBefore]

theorem excesses_le {part : List α} (h : part <+: as) :
    excesses slot part ≤ excesses slot as := by
  obtain ⟨rest, rfl⟩ := h
  simp [excesses]

/-- The slot takes all that is left: it ends there. -/
theorem topUp_whole (hFits : (slot a).offer + left < m)
    (hWhole : (slot a).accept ((slot a).offer + left) = (slot a).offer + left) :
    topUp slot m (a :: as) left = ([(a, (slot a).offer + left)], 0) := by
  simp only [topUp_cons, Nat.mod_eq_of_lt hFits, hWhole, Nat.sub_self, if_true]

/-- The slot is filled up, and the rest goes on. -/
theorem topUp_rest (hFits : (slot a).offer + left < m)
    (hRest : (slot a).accept ((slot a).offer + left) < (slot a).offer + left) :
    topUp slot m (a :: as) left =
      ((a, (slot a).accept ((slot a).offer + left)) ::
        (topUp slot m as ((slot a).offer + left - (slot a).accept ((slot a).offer + left))).1,
        (topUp slot m as ((slot a).offer + left - (slot a).accept ((slot a).offer + left))).2) := by
  simp only [topUp_cons, Nat.mod_eq_of_lt hFits]
  rw [if_neg (by omega)]

/-- The slots served come first. -/
theorem topUp_first (as : List α) (left : ℕ) : (topUp slot m as left).1.map Prod.fst <+: as := by
  induction as generalizing left with
  | nil => simp
  | cons a as ih =>
    rw [topUp_cons]
    simp only
    split
    · simp
    · exact (List.prefix_cons_inj a).mpr (ih _)

/-- No slot accepts more than its cap. -/
theorem topUp_capped (as : List α) (left : ℕ) :
    ∀ d ∈ (topUp slot m as left).1, ∀ cap, (slot d.1).cap = some cap → d.2 ≤ cap := by
  induction as generalizing left with
  | nil => simp
  | cons a as ih =>
    have hHead : ∀ cap, (slot a).cap = some cap →
        (slot a).accept (((slot a).offer + left) % m) ≤ cap := by
      intro cap hCap
      simp only [Slot.accept, hCap]
      exact Nat.min_le_left _ _
    rw [topUp_cons]
    simp only
    split
    · simpa using hHead
    · exact List.forall_mem_cons.mpr ⟨hHead, ih _⟩

variable (slot m) in
/-- No more comes out than goes in. -/
theorem topUp_le (as : List α) (left : ℕ) :
    accepts (topUp slot m as left).1 ≤ left + acceptedBefore slot (topUp slot m as left).1 +
      excesses slot ((topUp slot m as left).1.map Prod.fst) := by
  induction as generalizing left with
  | nil => simp [accepts]
  | cons a as ih =>
    have hSplit := (slot a).accepted_add_excess
    have hTaken := (slot a).accept_le (((slot a).offer + left) % m)
    have hMod := Nat.mod_le ((slot a).offer + left) m
    rw [topUp_cons]
    simp only
    split
    · simp only [accepts_cons, acceptedBefore_cons, List.map_cons, excesses_cons]
      simp only [accepts, acceptedBefore, List.map_nil, List.sum_nil, excesses_nil]
      omega
    · have hRest := ih (((slot a).offer + left) % m -
        (slot a).accept (((slot a).offer + left) % m))
      simp only [accepts_cons, acceptedBefore_cons, List.map_cons, excesses_cons]
      omega

/-- If the first offer wraps, `m` is lost, which is more than all excesses. -/
theorem topUp_wraps (debt : ℕ) (hWrap : m ≤ (slot a).offer + left) (hOffer : (slot a).offer < m)
    (hLeft : left < m) (hExcess : debt + excesses slot (a :: as) ≤ m) :
    accepts (topUp slot m (a :: as) left).1 + debt ≤
      left + acceptedBefore slot (topUp slot m (a :: as) left).1 := by
  have hSplit := (slot a).accepted_add_excess
  have hTaken := (slot a).accept_le (((slot a).offer + left) % m)
  have hMod : ((slot a).offer + left) % m = (slot a).offer + left - m := by
    rw [Nat.mod_eq_sub_mod hWrap, Nat.mod_eq_of_lt (by omega)]
  rw [excesses_cons] at hExcess
  rw [topUp_cons]
  simp only
  split
  · simp only [accepts_cons, acceptedBefore_cons]
    simp only [accepts, acceptedBefore, List.map_nil, List.sum_nil]
    omega
  · have hRest := topUp_le slot m as (((slot a).offer + left) % m -
      (slot a).accept (((slot a).offer + left) % m))
    have hServed : excesses slot ((topUp slot m as (((slot a).offer + left) % m -
        (slot a).accept (((slot a).offer + left) % m))).1.map Prod.fst) ≤ excesses slot as :=
      excesses_le (topUp_first as _)
    simp only [accepts_cons, acceptedBefore_cons]
    omega

-- ---------------------------------------------------------------------------
-- What one slot leaves to the others
-- ---------------------------------------------------------------------------

/-- What is left behind a slot that is filled up: what was left, and its excess,
less its room. -/
structure Behind (x : Slot) (left left' : ℕ) : Prop where
  pos : 0 < left'
  eq  : (left' : ℕ∞) + x.room = left + x.excess

theorem Behind.of_rest {x : Slot} (h : x.accept (x.offer + left) < x.offer + left) :
    Behind x left (x.offer + left - x.accept (x.offer + left)) :=
  ⟨by omega, Slot.room_of_rest h⟩

/-- The room of a slot that is filled up is a number. -/
theorem Behind.room_eq {x : Slot} {left' : ℕ} (h : Behind x left left') :
    ∃ room : ℕ, x.room = room ∧ left' + room = left + x.excess := by
  have hEq := h.eq
  cases hRoom : x.room with
  | top =>
    rw [hRoom, add_top] at hEq
    exact absurd hEq.symm (by exact_mod_cast ENat.natCast_ne_top (left + x.excess))
  | coe room =>
    rw [hRoom] at hEq
    exact ⟨room, rfl, by exact_mod_cast hEq⟩

variable {left' debt : ℕ}

theorem Behind.rooms_iff (h : Behind (slot a) left left') (debt : ℕ) :
    rooms slot (a :: as) + debt ≤ left ↔
      rooms slot as + ((debt + (slot a).excess : ℕ) : ℕ∞) ≤ left' := by
  obtain ⟨room, hRoom, hEq⟩ := h.room_eq
  rw [rooms_cons, hRoom]
  cases rooms slot as with
  | top => simp
  | coe rest =>
    norm_cast
    omega

theorem Behind.passed_iff (h : Behind (slot a) left left') (before : List α) :
    Passed slot (a :: before) left ↔ Passed slot before left' := by
  obtain ⟨room, hRoom, hEq⟩ := h.room_eq
  have hPos := h.pos
  have hPart : ∀ part : List α,
      rooms slot (a :: part) < ((left + excesses slot (a :: part) : ℕ) : ℕ∞) ↔
        rooms slot part < ((left' + excesses slot part : ℕ) : ℕ∞) := by
    intro part
    rw [rooms_cons, excesses_cons, hRoom]
    cases rooms slot part with
    | top => simp
    | coe rest =>
      norm_cast
      omega
  constructor
  · intro hPassed part hPrefix _
    exact (hPart part).mp (hPassed (a :: part) ((List.prefix_cons_inj a).mpr hPrefix)
      (List.cons_ne_nil a part))
  · intro hPassed part hPrefix hNe
    obtain ⟨part, rfl, hRest⟩ := (List.prefix_cons_iff.mp hPrefix).resolve_left hNe
    rw [hPart]
    by_cases hNil : part = []
    · subst hNil
      simpa using hPos
    · exact hPassed part hRest hNil

theorem Behind.overflows_iff (h : Behind (slot a) left left') (hFits : (slot a).offer + left < m) :
    Overflows slot m (a :: as) left ↔ Overflows slot m as left' := by
  obtain ⟨room, hRoom, hEq⟩ := h.room_eq
  have hWrap : ∀ (before : List α) (x : α),
      ((m : ℕ∞) + rooms slot (a :: before) ≤
        (((slot x).offer + left + excesses slot (a :: before) : ℕ) : ℕ∞)) ↔
      ((m : ℕ∞) + rooms slot before ≤
        (((slot x).offer + left' + excesses slot before : ℕ) : ℕ∞)) := by
    intro before x
    rw [rooms_cons, excesses_cons, hRoom]
    cases rooms slot before with
    | top => simp
    | coe rest =>
      norm_cast
      omega
  constructor
  · rintro ⟨before, x, hPrefix, hPassed, hOver⟩
    cases before with
    | nil =>
      obtain ⟨rfl, -⟩ := List.cons_prefix_cons.mp hPrefix
      simp only [rooms_nil, excesses_nil, add_zero] at hOver
      exact absurd (by exact_mod_cast hOver) (Nat.not_le.mpr hFits)
    | cons b before =>
      obtain ⟨rfl, hRest⟩ := List.cons_prefix_cons.mp hPrefix
      exact ⟨before, x, hRest, (h.passed_iff before).mp hPassed, (hWrap before x).mp hOver⟩
  · rintro ⟨before, x, hPrefix, hPassed, hOver⟩
    exact ⟨a :: before, x, (List.prefix_cons_inj a).mpr hPrefix, (h.passed_iff before).mpr hPassed,
      (hWrap before x).mpr hOver⟩

theorem Behind.takenFirst_iff (h : Behind (slot a) left left') (hNone : (slot a).excess = 0) :
    TakenFirst slot (a :: as) left ↔ TakenFirst slot as left' := by
  obtain ⟨room, hRoom, hEq⟩ := h.room_eq
  have hPos := h.pos
  have hPart : ∀ before : List α,
      (left : ℕ∞) ≤ rooms slot (a :: before) ↔ (left' : ℕ∞) ≤ rooms slot before := by
    intro before
    rw [rooms_cons, hRoom]
    cases rooms slot before with
    | top => simp
    | coe rest =>
      norm_cast
      omega
  constructor
  · rintro ⟨before, hPrefix, hNe, hWhole, hRooms⟩
    obtain ⟨before, rfl, hRest⟩ := (List.prefix_cons_iff.mp hPrefix).resolve_left hNe
    rw [hPart] at hRooms
    refine ⟨before, hRest, ?_, (List.forall_mem_cons.mp hWhole).2, hRooms⟩
    rintro rfl
    simp only [rooms_nil, nonpos_iff_eq_zero, Nat.cast_eq_zero] at hRooms
    omega
  · rintro ⟨before, hPrefix, hNe, hWhole, hRooms⟩
    exact ⟨a :: before, (List.prefix_cons_inj a).mpr hPrefix, List.cons_ne_nil a before,
      List.forall_mem_cons.mpr ⟨hNone, hWhole⟩, (hPart before).mpr hRooms⟩

theorem overflows_of_wrap (hWrap : m ≤ (slot a).offer + left) :
    Overflows slot m (a :: as) left := by
  refine ⟨[], a, ⟨as, rfl⟩, fun part hPart hNe => absurd (List.prefix_nil.mp hPart) hNe, ?_⟩
  simp only [rooms_nil, excesses_nil, add_zero]
  exact_mod_cast hWrap

/-- Where the first slot takes all that is left, nothing else is offered. -/
theorem not_overflows_of_whole (hFits : (slot a).offer + left < m)
    (hWhole : (slot a).accept ((slot a).offer + left) = (slot a).offer + left) :
    ¬ Overflows slot m (a :: as) left := by
  obtain ⟨hNone, hRoom⟩ := Slot.room_of_whole hWhole
  rintro ⟨before, x, hPrefix, hPassed, hOver⟩
  cases before with
  | nil =>
    obtain ⟨rfl, -⟩ := List.cons_prefix_cons.mp hPrefix
    simp only [rooms_nil, excesses_nil, add_zero] at hOver
    exact absurd (by exact_mod_cast hOver) (Nat.not_le.mpr hFits)
  | cons b before =>
    obtain ⟨rfl, -⟩ := List.cons_prefix_cons.mp hPrefix
    have hPast := hPassed [b] ⟨before, rfl⟩ (List.cons_ne_nil b [])
    simp only [rooms_cons, rooms_nil, add_zero, excesses_cons, excesses_nil, hNone] at hPast
    exact absurd hRoom (not_le.mpr hPast)

-- ---------------------------------------------------------------------------
-- All slots
-- ---------------------------------------------------------------------------

variable (slot m) in
/-- Behind an excess: what the slots accept makes up for the `debt` exactly if
they are filled up and leave as much, or an offer wraps. -/
theorem topUp_within_iff_of_debt (as : List α) (left debt : ℕ) (hDebt : 0 < debt)
    (hOffers : ∀ a ∈ as, (slot a).offer < m) (hLeft : left < m) (hExcess : debt + excesses slot as ≤ m) :
    accepts (topUp slot m as left).1 + debt ≤
        left + acceptedBefore slot (topUp slot m as left).1 ↔
      rooms slot as + debt ≤ left ∨ Overflows slot m as left := by
  induction as generalizing left debt with
  | nil =>
    have hNone : ¬ Overflows slot m ([] : List α) left := by
      rintro ⟨before, x, hPrefix, -⟩
      simp at hPrefix
    simp only [topUp_nil, accepts, acceptedBefore, List.map_nil, List.sum_nil, rooms_nil, hNone,
      or_false]
    norm_cast
  | cons a as ih =>
    obtain ⟨hOffer, hOffers⟩ := List.forall_mem_cons.mp hOffers
    have hSplit := (slot a).accepted_add_excess
    rcases Nat.lt_or_ge ((slot a).offer + left) m with hFits | hWrap
    · rcases (Slot.accept_le (slot a) ((slot a).offer + left)).lt_or_eq with hRest | hWhole
      · -- the slot is filled up: its excess adds to the debt
        have hBehind := Behind.of_rest hRest
        have hRec := ih ((slot a).offer + left - (slot a).accept ((slot a).offer + left))
          (debt + (slot a).excess) (by omega) hOffers (by omega)
          (by rw [excesses_cons] at hExcess; omega)
        rw [hBehind.rooms_iff, hBehind.overflows_iff hFits, ← hRec, topUp_rest hFits hRest]
        simp only [accepts_cons, acceptedBefore_cons]
        omega
      · -- the slot takes all: the debt stays
        obtain ⟨hNone, hRoom⟩ := Slot.room_of_whole hWhole
        rw [topUp_whole hFits hWhole]
        refine iff_of_false ?_ (not_or.mpr ⟨?_, not_overflows_of_whole hFits hWhole⟩)
        · simp only [accepts_cons, acceptedBefore_cons]
          simp only [accepts, acceptedBefore, List.map_nil, List.sum_nil]
          omega
        · rw [rooms_cons, not_le]
          calc (left : ℕ∞) < ((left + debt : ℕ) : ℕ∞) := by
                exact_mod_cast Nat.lt_add_of_pos_right hDebt
            _ = left + debt := by push_cast; rfl
            _ ≤ (slot a).room + rooms slot as + debt :=
              add_le_add_left (le_add_right hRoom) _
    · exact iff_of_true (topUp_wraps debt hWrap hOffer hLeft hExcess)
        (Or.inr (overflows_of_wrap hWrap))

variable (slot m) in
/-- **What the slots accept in the end** is within the remainder and what they
accepted at first, exactly if the first slots have no excess and room for all
that is left, or the slots have no more room than that altogether, or an offer
wraps. -/
theorem topUp_within_iff (as : List α) (left : ℕ) (hOffers : ∀ a ∈ as, (slot a).offer < m)
    (hLeft : left < m) (hExcess : excesses slot as ≤ m) :
    accepts (topUp slot m as left).1 ≤ left + acceptedBefore slot (topUp slot m as left).1 ↔
      TakenFirst slot as left ∨ rooms slot as ≤ left ∨ Overflows slot m as left := by
  induction as generalizing left with
  | nil => simp [accepts]
  | cons a as ih =>
    obtain ⟨hOffer, hOffers⟩ := List.forall_mem_cons.mp hOffers
    have hSplit := (slot a).accepted_add_excess
    rcases Nat.lt_or_ge ((slot a).offer + left) m with hFits | hWrap
    · rcases (Slot.accept_le (slot a) ((slot a).offer + left)).lt_or_eq with hRest | hWhole
      · have hBehind := Behind.of_rest hRest
        have hRooms : rooms slot (a :: as) ≤ left ↔ rooms slot as + ((slot a).excess : ℕ∞) ≤
            ((slot a).offer + left - (slot a).accept ((slot a).offer + left) : ℕ) := by
          simpa only [Nat.cast_zero, add_zero, zero_add] using hBehind.rooms_iff 0
        rw [hRooms, hBehind.overflows_iff hFits, topUp_rest hFits hRest]
        simp only [accepts_cons, acceptedBefore_cons]
        rw [excesses_cons] at hExcess
        rcases Nat.eq_zero_or_pos (slot a).excess with hNone | hSome
        · have hRec := ih ((slot a).offer + left - (slot a).accept ((slot a).offer + left))
            hOffers (by omega) (by omega)
          rw [hBehind.takenFirst_iff hNone, hNone, Nat.cast_zero, add_zero, ← hRec]
          omega
        · -- from here on its excess has to be made up for
          have hNotFirst : ¬ TakenFirst slot (a :: as) left := by
            rintro ⟨before, hPrefix, hNe, hNone, -⟩
            obtain ⟨before, rfl, -⟩ := (List.prefix_cons_iff.mp hPrefix).resolve_left hNe
            exact absurd (hNone a List.mem_cons_self) (by omega)
          have hRec := topUp_within_iff_of_debt slot m as
            ((slot a).offer + left - (slot a).accept ((slot a).offer + left)) (slot a).excess
            hSome hOffers (by omega) hExcess
          rw [or_iff_right hNotFirst, ← hRec]
          omega
      · obtain ⟨hNone, hRoom⟩ := Slot.room_of_whole hWhole
        rw [topUp_whole hFits hWhole]
        refine iff_of_true ?_ (Or.inl ⟨[a], ⟨as, rfl⟩, List.cons_ne_nil a [], ?_, ?_⟩)
        · simp only [accepts_cons, acceptedBefore_cons]
          simp only [accepts, acceptedBefore, List.map_nil, List.sum_nil]
          omega
        · simpa using hNone
        · simpa using hRoom
    · have hExcess' : 0 + excesses slot (a :: as) ≤ m := by omega
      exact iff_of_true (topUp_wraps 0 hWrap hOffer hLeft hExcess')
        (Or.inr (Or.inr (overflows_of_wrap hWrap)))

end DatastorQos.TopUp
