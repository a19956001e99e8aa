import Mathlib.Algebra.BigOperators.Group.List.Basic
import Mathlib.Algebra.Ring.Nat
import Mathlib.Data.List.Nodup

/-!
# Keyed lists — finite maps as lists of records

A list whose records carry their own key, no two records the same one, is a
finite map. `lookup` finds the record of a key, `modify` rewrites it in place.
The rules say what an in-place rewrite does to membership, to lookups and to
any sum or count over the list: it changes by the contribution of the one
record that was rewritten.
-/

namespace DatastorQos.Keyed

variable {α κ M : Type*} {key : α → κ}

/-- The record of key `k`. -/
def lookup [DecidableEq κ] (key : α → κ) (k : κ) (l : List α) : Option α :=
  l.find? fun a => decide (key a = k)

/-- Rewrite the record of key `k` in place. -/
def modify [DecidableEq κ] (key : α → κ) (k : κ) (f : α → α) (l : List α) : List α :=
  l.map fun a => if key a = k then f a else a

/-- Put `b` in the place of the record of its key. -/
def replace [DecidableEq κ] (key : α → κ) (b : α) (l : List α) : List α :=
  l.map fun a => if key a = key b then b else a

/-- Remove the record of key `k`. -/
def erase [DecidableEq κ] (key : α → κ) (k : κ) (l : List α) : List α :=
  l.filter fun a => decide (key a ≠ k)

/-- No two records share a key. -/
def Distinct (key : α → κ) (l : List α) : Prop := (l.map key).Nodup

theorem Distinct.eq_of_key_eq {l : List α} (hl : Distinct key l) {a b : α} (ha : a ∈ l)
    (hb : b ∈ l) (h : key a = key b) : a = b :=
  List.inj_on_of_nodup_map hl ha hb h

theorem Distinct.tail {a : α} {l : List α} (hl : Distinct key (a :: l)) : Distinct key l :=
  (List.nodup_cons.mp hl).2

variable [DecidableEq κ]

-- ---------------------------------------------------------------------------
-- Lookup
-- ---------------------------------------------------------------------------

theorem mem_of_lookup {k : κ} {l : List α} {a : α} (h : lookup key k l = some a) : a ∈ l :=
  List.mem_of_find?_eq_some h

theorem key_of_lookup {k : κ} {l : List α} {a : α} (h : lookup key k l = some a) : key a = k := by
  simpa using List.find?_some h

theorem lookup_of_mem {l : List α} (hl : Distinct key l) {a : α} (ha : a ∈ l) :
    lookup key (key a) l = some a := by
  cases h : lookup key (key a) l with
  | none =>
    rw [lookup, List.find?_eq_none] at h
    exact absurd (by simp) (h a ha)
  | some b => rw [hl.eq_of_key_eq ha (mem_of_lookup h) (key_of_lookup h).symm]

theorem lookup_eq_none_iff {k : κ} {l : List α} :
    lookup key k l = none ↔ ∀ a ∈ l, key a ≠ k := by
  simp [lookup]

-- ---------------------------------------------------------------------------
-- Rewriting in place
-- ---------------------------------------------------------------------------

theorem mem_modify {k : κ} {f : α → α} {l : List α} {b : α} :
    b ∈ modify key k f l ↔ (b ∈ l ∧ key b ≠ k) ∨ ∃ a ∈ l, key a = k ∧ f a = b := by
  rw [modify, List.mem_map]
  constructor
  · rintro ⟨a, ha, rfl⟩
    by_cases hk : key a = k
    · exact Or.inr ⟨a, ha, hk, by rw [if_pos hk]⟩
    · exact Or.inl ⟨by rwa [if_neg hk], by rwa [if_neg hk]⟩
  · rintro (⟨hb, hk⟩ | ⟨a, ha, hk, rfl⟩)
    · exact ⟨b, hb, by rw [if_neg hk]⟩
    · exact ⟨a, ha, by rw [if_pos hk]⟩

theorem modify_of_lookup_none {k : κ} {f : α → α} {l : List α} (h : lookup key k l = none) :
    modify key k f l = l := by
  rw [lookup_eq_none_iff] at h
  rw [modify, List.map_congr_left (g := id) fun a ha => by simp [h a ha], List.map_id]

theorem map_key_modify {k : κ} {f : α → α} (hf : ∀ a, key (f a) = key a) (l : List α) :
    (modify key k f l).map key = l.map key := by
  rw [modify, List.map_map]
  refine List.map_congr_left fun a _ => ?_
  simp only [Function.comp_apply]
  split
  · exact hf a
  · rfl

theorem Distinct.modify {k : κ} {f : α → α} (hf : ∀ a, key (f a) = key a) {l : List α}
    (hl : Distinct key l) : Distinct key (modify key k f l) := by
  unfold Distinct
  rw [map_key_modify hf]
  exact hl

theorem lookup_modify {k k' : κ} {f : α → α} (hf : ∀ a, key (f a) = key a) (l : List α) :
    lookup key k' (modify key k f l) =
      if k' = k then (lookup key k' l).map f else lookup key k' l := by
  induction l with
  | nil => simp [lookup, Keyed.modify]
  | cons a l ih =>
    rw [show Keyed.modify key k f (a :: l) =
      (if key a = k then f a else a) :: Keyed.modify key k f l from rfl]
    unfold lookup at ih ⊢
    rw [List.find?_cons, List.find?_cons, ih]
    by_cases hk : key a = k <;> by_cases hk' : key a = k' <;> by_cases hkk : k' = k <;>
      simp_all

theorem modify_modify {k : κ} {f g : α → α} (hf : ∀ a, key (f a) = key a) (l : List α) :
    modify key k g (modify key k f l) = modify key k (fun a => g (f a)) l := by
  unfold Keyed.modify
  rw [List.map_map]
  refine List.map_congr_left fun a _ => ?_
  rw [Function.comp_apply]
  by_cases hk : key a = k <;> simp [hk, hf]

/-- The rewrite by a function that looks at the key. -/
theorem replace_eq_modify (b : α) (l : List α) :
    replace key b l = modify key (key b) (fun a => if key a = key b then b else a) l := by
  refine List.map_congr_left fun a _ => ?_
  split
  · rename_i h
    exact (if_pos h).symm
  · rfl

theorem lookup_replace (b : α) (k : κ) (l : List α) :
    lookup key k (replace key b l) =
      if k = key b then (lookup key k l).map fun _ => b else lookup key k l := by
  rw [replace_eq_modify, lookup_modify fun a => by split <;> simp_all]
  split
  · rename_i hk
    subst hk
    cases h : lookup key (key b) l with
    | none => rfl
    | some a => simp [key_of_lookup h]
  · rfl

/-- A sum over the records changes by the contribution of the rewritten one. -/
theorem sum_modify [AddCommMonoid M] {w : α → M} {k : κ} {f : α → α} {l : List α} {a : α}
    (hl : Distinct key l) (ha : lookup key k l = some a) :
    ((modify key k f l).map w).sum + w a = (l.map w).sum + w (f a) := by
  induction l with
  | nil => simp [lookup] at ha
  | cons b l ih =>
    rw [show Keyed.modify key k f (b :: l) =
      (if key b = k then f b else b) :: Keyed.modify key k f l from rfl]
    unfold lookup at ha
    rw [List.find?_cons] at ha
    by_cases hb : key b = k
    · -- the head is the record of `k`: the tail holds no other
      rw [if_pos hb]
      simp only [hb, decide_true, Option.some.injEq] at ha
      subst ha
      have hTail : lookup key k l = none := by
        rw [lookup_eq_none_iff]
        intro c hc hck
        exact (List.nodup_cons.mp hl).1 (List.mem_map.mpr ⟨c, hc, hck.trans hb.symm⟩)
      rw [modify_of_lookup_none hTail]
      simp only [List.map_cons, List.sum_cons]
      rw [add_right_comm, add_comm (w (f b)), add_right_comm, add_comm (w b), add_right_comm]
    · simp only [hb, decide_false] at ha
      rw [if_neg hb]
      simp only [List.map_cons, List.sum_cons]
      rw [add_assoc, ih hl.tail ha, add_assoc]

/-- A sum that leaves one record out falls short by its contribution. -/
theorem sum_without [AddCommMonoid M] {w : α → M} {k : κ} {l : List α} {a : α}
    (hl : Distinct key l) (ha : lookup key k l = some a) :
    (l.map fun b => if key b = k then 0 else w b).sum + w a = (l.map w).sum := by
  induction l with
  | nil => simp [lookup] at ha
  | cons b l ih =>
    unfold lookup at ha
    rw [List.find?_cons] at ha
    simp only [List.map_cons, List.sum_cons]
    by_cases hb : key b = k
    · simp only [hb, decide_true, Option.some.injEq] at ha
      subst ha
      have hTail : ∀ c ∈ l, (if key c = k then 0 else w c) = w c := by
        intro c hc
        rw [if_neg]
        intro hck
        exact (List.nodup_cons.mp hl).1 (List.mem_map.mpr ⟨c, hc, hck.trans hb.symm⟩)
      rw [if_pos hb, zero_add, List.map_congr_left hTail, add_comm]
    · simp only [hb, decide_false] at ha
      rw [if_neg hb, add_assoc, ih hl.tail ha]

theorem sum_filter [AddCommMonoid M] (w : α → M) (p : α → Bool) (l : List α) :
    ((l.filter p).map w).sum = (l.map fun a => if p a then w a else 0).sum := by
  induction l with
  | nil => rfl
  | cons a l ih =>
    rw [List.filter_cons]
    split
    · rename_i h
      rw [List.map_cons, List.sum_cons, ih, List.map_cons, List.sum_cons, if_pos h]
    · rename_i h
      rw [ih, List.map_cons, List.sum_cons, if_neg h, zero_add]

-- ---------------------------------------------------------------------------
-- Removing
-- ---------------------------------------------------------------------------

theorem mem_erase {k : κ} {l : List α} {a : α} : a ∈ erase key k l ↔ a ∈ l ∧ key a ≠ k := by
  simp [erase]

theorem Distinct.erase {l : List α} (hl : Distinct key l) (k : κ) :
    Distinct key (erase key k l) :=
  hl.sublist (List.filter_sublist.map key)

theorem erase_of_lookup_none {k : κ} {l : List α} (h : lookup key k l = none) :
    erase key k l = l := by
  rw [lookup_eq_none_iff] at h
  exact List.filter_eq_self.mpr fun a ha => decide_eq_true (h a ha)

theorem erase_cons_self (a : α) (l : List α) :
    erase key (key a) (a :: l) = erase key (key a) l := by
  simp [erase]

/-- What becomes of a record before it is removed does not matter. -/
theorem erase_modify {k : κ} {f : α → α} (hf : ∀ a, key (f a) = key a) (l : List α) :
    erase key k (modify key k f l) = erase key k l := by
  induction l with
  | nil => rfl
  | cons a l ih =>
    unfold Keyed.modify Keyed.erase at ih ⊢
    rw [List.map_cons, List.filter_cons, List.filter_cons, ih]
    by_cases hk : key a = k <;> simp [hk, hf]

/-- A sum without one record falls short by its contribution. -/
theorem sum_erase [AddCommMonoid M] {w : α → M} {k : κ} {l : List α} {a : α}
    (hl : Distinct key l) (ha : lookup key k l = some a) :
    ((erase key k l).map w).sum + w a = (l.map w).sum := by
  rw [← sum_without hl ha, erase, sum_filter]
  refine congrArg (·.sum + w a) (List.map_congr_left fun b _ => ?_)
  by_cases hb : key b = k <;> simp [hb]

/-- Maps with the same keys are of the same size. -/
theorem length_eq_of_domain {l l' : List α} (hl : Distinct key l) (hl' : Distinct key l')
    (hDomain : ∀ k, (lookup key k l').isSome = (lookup key k l).isSome) : l'.length = l.length := by
  have hMem : ∀ {l : List α} {k : κ}, k ∈ l.map key ↔ (lookup key k l).isSome := by
    intro l k
    rw [List.mem_map, ← Option.ne_none_iff_isSome, ne_eq, lookup_eq_none_iff]
    simp
  have hPerm : (l'.map key).Perm (l.map key) := by
    refine (List.perm_ext_iff_of_nodup hl' hl).mpr fun k => ?_
    rw [hMem, hMem, hDomain]
  simpa using hPerm.length_eq

theorem lookup_erase {k k' : κ} (l : List α) :
    lookup key k' (erase key k l) = if k' = k then none else lookup key k' l := by
  split
  · rename_i h
    rw [lookup_eq_none_iff]
    intro a ha hk
    exact (mem_erase.mp ha).2 (hk.trans h)
  · rename_i h
    unfold lookup erase
    rw [List.find?_filter]
    congr 1
    funext a
    by_cases hk : key a = k' <;> simp [hk, h]

-- ---------------------------------------------------------------------------
-- Some of the keys
-- ---------------------------------------------------------------------------

theorem lookup_filter {P : κ → Bool} {k : κ} (hk : P k = true) (l : List α) :
    lookup key k (l.filter fun a => P (key a)) = lookup key k l := by
  unfold lookup
  rw [List.find?_filter]
  congr 1
  funext a
  by_cases h : key a = k <;> simp [h, hk]

theorem modify_filter {P : κ → Bool} {k : κ} {f : α → α} (hf : ∀ a, key (f a) = key a)
    (l : List α) :
    modify key k f (l.filter fun a => P (key a)) =
      (modify key k f l).filter fun a => P (key a) := by
  induction l with
  | nil => rfl
  | cons a l ih =>
    have hKey : key (if key a = k then f a else a) = key a := by
      split
      · exact hf a
      · rfl
    unfold Keyed.modify at ih ⊢
    rw [List.map_cons, List.filter_cons, List.filter_cons, hKey, ← ih]
    split
    · rw [List.map_cons]
    · rfl

-- ---------------------------------------------------------------------------
-- Counting
-- ---------------------------------------------------------------------------

theorem countP_eq_sum (p : α → Bool) (l : List α) :
    l.countP p = (l.map fun a => if p a then 1 else 0).sum := by
  induction l with
  | nil => rfl
  | cons a l ih =>
    rw [List.countP_cons, List.map_cons, List.sum_cons, ih, add_comm]

theorem countP_modify {p : α → Bool} {k : κ} {f : α → α} {l : List α} {a : α}
    (hl : Distinct key l) (ha : lookup key k l = some a) :
    (modify key k f l).countP p + (if p a then 1 else 0) =
      l.countP p + (if p (f a) then 1 else 0) := by
  rw [countP_eq_sum, countP_eq_sum]
  exact sum_modify (w := fun a => if p a then 1 else 0) hl ha

end DatastorQos.Keyed
