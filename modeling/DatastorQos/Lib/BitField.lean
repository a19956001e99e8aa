import Mathlib.Data.BitVec

/-!
# BitField — fields of a machine word

`write x start v` puts `v` at the bits of `x` from `start` on, as a store to a
bit-field does. Reading is `BitVec.extractLsb'`: a field reads as it was written
(`extractLsb'_write`), and no other field changes (`extractLsb'_write_of_disjoint`).
-/

namespace DatastorQos.BitField

variable {w len : ℕ}

def write (x : BitVec w) (start : ℕ) (v : BitVec len) : BitVec w :=
  (x &&& ~~~((BitVec.allOnes len).setWidth w <<< start)) ||| (v.setWidth w <<< start)

theorem getLsbD_write (x : BitVec w) (start : ℕ) (v : BitVec len) (i : ℕ) :
    (write x start v).getLsbD i =
      (decide (i < w) &&
        if start ≤ i ∧ i < start + len then v.getLsbD (i - start) else x.getLsbD i) := by
  unfold write
  by_cases hw : i < w
  · by_cases hs : start ≤ i
    · by_cases hl : i < start + len
      · have hBit : i - start < len := by omega
        simp [hw, hs, hl, hBit, Nat.not_lt.mpr hs]
      · have hPast : ¬ i - start < len := by omega
        have hNone : v.getLsbD (i - start) = false := BitVec.getLsbD_of_ge _ _ (by omega)
        simp [hw, hl, hPast, hNone]
    · simp [hw, hs, Nat.lt_of_not_le hs]
  · simp [hw]

theorem extractLsb'_write (x : BitVec w) (start : ℕ) (v : BitVec len) (h : start + len ≤ w) :
    (write x start v).extractLsb' start len = v := by
  ext i hi
  rw [BitVec.getElem_extractLsb', getLsbD_write]
  have hw : start + i < w := by omega
  simp [hw, hi]

theorem extractLsb'_write_of_disjoint (x : BitVec w) (start : ℕ) (v : BitVec len)
    {start' len' : ℕ} (h : start' + len' ≤ w)
    (hDisjoint : start' + len' ≤ start ∨ start + len ≤ start') :
    (write x start v).extractLsb' start' len' = x.extractLsb' start' len' := by
  ext i hi
  rw [BitVec.getElem_extractLsb', BitVec.getElem_extractLsb', getLsbD_write]
  have hw : start' + i < w := by omega
  have hOut : ¬ (start ≤ start' + i ∧ start' + i < start + len) := by omega
  simp [hw, hOut]

end DatastorQos.BitField
