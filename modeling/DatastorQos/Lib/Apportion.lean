import Mathlib.Algebra.BigOperators.Group.List.Basic
import Mathlib.Algebra.Order.BigOperators.Group.List
import Mathlib.Algebra.Order.Ring.Nat
import Mathlib.Data.BitVec

/-!
# Apportion — a pool divided in proportion, in machine words

`share pool weight total` rounds down, so shares of weights that add up to at
most `total` never spend more than `pool` (`sum_share_le`). The word versions
say when a sum, a product or a share of `w`-bit words is the one of the numbers
behind them.
-/

namespace DatastorQos.Apportion

variable {α : Type*} {w : ℕ}

/-- What `weight` out of `total` gets of `pool`, rounded down. -/
def share (pool weight total : ℕ) : ℕ := pool * weight / total

/-- Shares add up to no more than the share of the sum. -/
theorem sum_share_le_share (pool total : ℕ) (weights : List ℕ) :
    (weights.map (share pool · total)).sum ≤ share pool weights.sum total := by
  induction weights with
  | nil => simp
  | cons weight weights ih =>
    rw [List.map_cons, List.sum_cons, List.sum_cons]
    calc share pool weight total + (weights.map (share pool · total)).sum
        ≤ share pool weight total + share pool weights.sum total := Nat.add_le_add_left ih _
      _ ≤ (pool * weight + pool * weights.sum) / total := Nat.div_add_div_le_add_div
      _ = share pool (weight + weights.sum) total := by rw [share, Nat.mul_add]

/-- Shares never spend more than the pool. -/
theorem sum_share_le {pool total : ℕ} {weights : List ℕ} (hTotal : 0 < total)
    (h : weights.sum ≤ total) : (weights.map (share pool · total)).sum ≤ pool :=
  calc (weights.map (share pool · total)).sum
      ≤ pool * weights.sum / total := sum_share_le_share pool total weights
    _ ≤ pool * total / total := Nat.div_le_div_right (Nat.mul_le_mul_left pool h)
    _ = pool := Nat.mul_div_cancel pool hTotal

-- ---------------------------------------------------------------------------
-- Words
-- ---------------------------------------------------------------------------

/-- The numbers behind words, added up. -/
def total (f : α → BitVec w) (l : List α) : ℕ := (l.map fun a => (f a).toNat).sum

@[simp] theorem total_nil (f : α → BitVec w) : total f [] = 0 := rfl

@[simp] theorem total_cons (f : α → BitVec w) (a : α) (l : List α) :
    total f (a :: l) = (f a).toNat + total f l := rfl

theorem total_perm (f : α → BitVec w) {l l' : List α} (h : l.Perm l') : total f l = total f l' :=
  (h.map _).sum_eq

theorem total_congr {f g : α → BitVec w} {l : List α} (h : ∀ a ∈ l, f a = g a) :
    total f l = total g l :=
  congrArg List.sum (List.map_congr_left fun a ha => congrArg BitVec.toNat (h a ha))

theorem total_map {β : Type*} (f : α → BitVec w) (g : β → α) (l : List β) :
    total f (l.map g) = total (fun b => f (g b)) l := by
  simp [total, Function.comp_def]

theorem le_total_of_mem (f : α → BitVec w) {a : α} {l : List α} (h : a ∈ l) :
    (f a).toNat ≤ total f l :=
  List.le_sum_of_mem (List.mem_map_of_mem h)

theorem total_le_of_sublist (f : α → BitVec w) {l l' : List α} (h : l.Sublist l') :
    total f l ≤ total f l' :=
  (h.map _).sum_le_sum fun _ _ => Nat.zero_le _

theorem total_eq_add {f g h : α → BitVec w} {l : List α}
    (hAdd : ∀ a ∈ l, (f a).toNat = (g a).toNat + (h a).toNat) :
    total f l = total g l + total h l := by
  rw [total, total, total, ← List.sum_map_add]
  exact congrArg List.sum (List.map_congr_left hAdd)

theorem total_le_total {f g : α → BitVec w} {l : List α}
    (hLe : ∀ a ∈ l, (f a).toNat ≤ (g a).toNat) : total f l ≤ total g l :=
  List.sum_le_sum hLe

/-- Where `f` takes nothing of what `g` has of `a`, that much is left. -/
theorem total_add_le {f g : α → BitVec w} {l : List α}
    (hLe : ∀ a ∈ l, (f a).toNat ≤ (g a).toNat) {a : α} (ha : a ∈ l) (hNone : (f a).toNat = 0) :
    total f l + (g a).toNat ≤ total g l := by
  obtain ⟨l₁, l₂, rfl⟩ := List.append_of_mem ha
  have hSplit : ∀ k : α → BitVec w,
      total k (l₁ ++ a :: l₂) = total k l₁ + ((k a).toNat + total k l₂) := fun k => by simp [total]
  have hFirst : total f l₁ ≤ total g l₁ :=
    total_le_total fun x hx => hLe x (List.mem_append_left _ hx)
  have hLast : total f l₂ ≤ total g l₂ :=
    total_le_total fun x hx => hLe x (List.mem_append_right _ (List.mem_cons_of_mem _ hx))
  rw [hSplit, hSplit]
  omega

/-- A sum of words wraps at `2 ^ w`. -/
theorem toNat_sum (f : α → BitVec w) (l : List α) :
    (l.map f).sum.toNat = total f l % 2 ^ w := by
  induction l with
  | nil => simp
  | cons a l ih => simp [ih]

/-- A share of words is the share of the numbers behind them, if the product
fits. -/
theorem toNat_share {pool weight tot : BitVec w} (h : pool.toNat * weight.toNat < 2 ^ w) :
    (pool * weight / tot).toNat = share pool.toNat weight.toNat tot.toNat := by
  rw [BitVec.toNat_udiv, BitVec.toNat_mul, Nat.mod_eq_of_lt h, share]

end DatastorQos.Apportion
