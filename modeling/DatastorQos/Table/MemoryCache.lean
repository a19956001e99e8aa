import DatastorQos.Interface

/-!
# memory_cache — capped, counted allocation

The model of `memory_cache.c` as it is built, with `CACHE_OPEN_CNT`: a cache
hands out at most `cache_unit` objects at a time and counts what it handed out
and took back. The heap behind it is assumed to succeed, as the `assert` in
`qos_alloc` does.
-/

namespace DatastorQos

/-- `memory_cache_t`. -/
structure MemoryCache where
  cacheUnit : ULong
  allocCnt  : ULong
  freeCnt   : ULong
  deriving DecidableEq, Repr

namespace MemoryCache

/-- `memory_cache_init`. -/
def init (cacheUnit : ULong) : MemoryCache where
  cacheUnit := cacheUnit
  allocCnt  := 0
  freeCnt   := 0

/-- `cache_alloc`; `none` is a `NULL` return, which leaves the cache as it is. -/
def alloc (c : MemoryCache) : Option MemoryCache :=
  if c.freeCnt + c.cacheUnit - c.allocCnt > 0 then
    some { c with allocCnt := c.allocCnt + 1 }
  else none

/-- `cache_free`. -/
def free (c : MemoryCache) : MemoryCache :=
  { c with freeCnt := c.freeCnt + 1 }

/-- The objects handed out and not taken back. -/
def outstanding (c : MemoryCache) : Nat := (c.allocCnt - c.freeCnt).toNat

/-- Between `c` and `c'` the cache handed out `n` objects more than it took
back. The counters themselves only grow. -/
structure Took (c c' : MemoryCache) (n : Nat) : Prop where
  unit_eq : c'.cacheUnit = c.cacheUnit
  diff    : c'.allocCnt - c'.freeCnt = c.allocCnt - c.freeCnt + BitVec.ofNat 64 n

namespace Took

variable {c c₁ c' : MemoryCache} {n k : Nat}

theorem refl (c : MemoryCache) : c.Took c 0 := ⟨rfl, by simp⟩

theorem alloc (h : c.alloc = some c') : c.Took c' 1 := by
  unfold MemoryCache.alloc at h
  split at h
  · obtain rfl := Option.some.inj h
    refine ⟨rfl, ?_⟩
    simp only
    bv_omega
  · cases h

theorem trans (a : c.Took c₁ n) (b : c₁.Took c' k) : c.Took c' (n + k) := by
  refine ⟨b.unit_eq.trans a.unit_eq, ?_⟩
  rw [b.diff, a.diff, BitVec.add_assoc, ← BitVec.ofNat_add]

theorem free (h : c.Took c' (n + 1)) : c.Took c'.free n := by
  refine ⟨h.unit_eq, ?_⟩
  have hDiff := h.diff
  rw [BitVec.ofNat_add] at hDiff
  unfold MemoryCache.free
  simp only
  bv_omega

/-- One object goes back for each element of a list. -/
theorem freeAll {α : Type} {l : List α} (h : c.Took c' (n + l.length)) :
    c.Took (l.foldl (fun cache _ => cache.free) c') n := by
  induction l generalizing c' with
  | nil => exact h
  | cons _ l ih => exact ih (free h)

theorem outstanding_eq (h : c.Took c' 0) : c'.outstanding = c.outstanding := by
  unfold outstanding
  rw [h.diff, BitVec.add_zero]

end Took

/-- A cache of `unit` objects has handed out `n`. The counters may have wrapped
around, their difference has not. -/
structure Holds (c : MemoryCache) (unit : ULong) (n : Nat) : Prop where
  unit_eq : c.cacheUnit = unit
  le      : n ≤ unit.toNat
  diff    : c.allocCnt - c.freeCnt = BitVec.ofNat 64 n

namespace Holds

variable {c c' : MemoryCache} {unit : ULong} {n : Nat}

theorem init (unit : ULong) : (MemoryCache.init unit).Holds unit 0 :=
  ⟨rfl, Nat.zero_le _, by simp [MemoryCache.init]⟩

theorem outstanding_eq (h : c.Holds unit n) : c.outstanding = n := by
  unfold outstanding
  rw [h.diff, BitVec.toNat_ofNat, Nat.mod_eq_of_lt (Nat.lt_of_le_of_lt h.le unit.isLt)]

/-- There is one more exactly if not all are out. -/
theorem isSome_alloc_iff (h : c.Holds unit n) : c.alloc.isSome ↔ n < unit.toNat := by
  have hLeft : c.freeCnt + c.cacheUnit - c.allocCnt = unit - BitVec.ofNat 64 n := by
    rw [← h.diff, h.unit_eq]
    bv_omega
  have hUnit := unit.isLt
  have hNat := h.le
  unfold MemoryCache.alloc
  rw [hLeft]
  split
  · refine iff_of_true rfl ?_
    bv_omega
  · refine iff_of_false (by simp) ?_
    bv_omega

theorem alloc (h : c.Holds unit n) (hAlloc : c.alloc = some c') : c'.Holds unit (n + 1) := by
  have hLess := h.isSome_alloc_iff.mp (Option.isSome_of_eq_some hAlloc)
  unfold MemoryCache.alloc at hAlloc
  split at hAlloc
  · obtain rfl := Option.some.inj hAlloc
    refine ⟨h.unit_eq, hLess, ?_⟩
    rw [BitVec.ofNat_add, ← h.diff]
    simp only
    bv_omega
  · cases hAlloc

theorem free (h : c.Holds unit (n + 1)) : c.free.Holds unit n := by
  refine ⟨h.unit_eq, Nat.le_of_succ_le h.le, ?_⟩
  have hDiff := h.diff
  rw [BitVec.ofNat_add] at hDiff
  unfold MemoryCache.free
  simp only
  bv_omega

theorem freeAll {α : Type} {l : List α} (h : c.Holds unit (n + l.length)) :
    (l.foldl (fun cache _ => cache.free) c).Holds unit n := by
  induction l generalizing c with
  | nil => exact h
  | cons _ l ih => exact ih h.free

/-- A cache that handed out no more than it took back since. -/
theorem congr (h : c.Holds unit n) (hTook : c.Took c' 0) : c'.Holds unit n := by
  refine ⟨hTook.unit_eq.trans h.unit_eq, h.le, ?_⟩
  rw [hTook.diff, BitVec.add_zero, h.diff]

end Holds

end MemoryCache

end DatastorQos
