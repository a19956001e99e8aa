import DatastorQos.Lib.BitField
import Mathlib.Data.BitVec
import Mathlib.Tactic.Ring

/-!
# datastor_qos — shared vocabulary

The numbers, error codes and wire messages that both sides of the QoS library
use (`sysqos_interface.h`, `sysqos_common.h`, `sysqos_protocol.h`).

* `unsigned long` is `ULong`, a 64-bit vector: every `+` and `-` below wraps
  exactly where the C code wraps.
* `long version` is an `Int`: the app side only ever subtracts two versions
  when the newer one is at least as large and neither is negative, so no
  signed difference leaves the 64-bit range.
* resource ids are opaque `void *` values that only the installed `compare`
  and `hash_id` callbacks look at; they are a type variable `Id`.
-/

namespace DatastorQos

/-- `unsigned long` on the 64-bit targets the library is built for. -/
abbrev ULong := BitVec 64

/-- The `min` macro of `sysqos_common.h`, at `unsigned long`. -/
def ULong.cmin (a b : ULong) : ULong := if a < b then a else b

/-- The `max` macro of `sysqos_common.h`, at `unsigned long`. -/
def ULong.cmax (a b : ULong) : ULong := if a > b then a else b

/-- `MIN_RS_NUM`: the quota a node starts with. -/
def MIN_RS_NUM : ULong := 10

/-- `MMAX_RESPOND_STEP`: how far one step lowers a quota. -/
def MMAX_RESPOND_STEP : ULong := 5

/-- The `QOS_ERROR_*` codes the modelled functions return. -/
inductive QosError where
  | ok
  | pending
  | failedNode
  | tooBigCost
  | memory
  | tooManyNodes
  deriving DecidableEq, Repr

/-- `resource_t`: how much of which resource. -/
structure Resource (Id : Type) where
  id   : Id
  cost : ULong
  deriving DecidableEq, Repr

/-- `dispatch2app_t`: the dispatcher announces a quota. -/
structure Dispatch2App where
  tokenQuota : ULong
  version    : Int
  deriving DecidableEq, Repr

/-- `PRESS_TYPE_BIT`. -/
def PRESS_TYPE_BIT : Nat := 2

/-- `PRESS_VAL_BIT`: in `sizeof(unsigned long)<<3 - PRESS_TYPE_BIT` the
subtraction binds first. -/
def PRESS_VAL_BIT : Nat := 8 <<< (3 - PRESS_TYPE_BIT)

/-- `press_t`, the union, as its `val`. -/
abbrev PressT := ULong

/-- `press.fifo.depth`, a bit-field. -/
def PressT.fifoDepth (press : PressT) : ULong :=
  (press.extractLsb' PRESS_TYPE_BIT PRESS_VAL_BIT).setWidth 64

/-- `press_type_fifo`. -/
def pressTypeFifo : BitVec PRESS_TYPE_BIT := 0

/-- `press.type`. -/
def PressT.type (press : PressT) : BitVec PRESS_TYPE_BIT := press.extractLsb' 0 PRESS_TYPE_BIT

/-- A store to `press.type`. -/
def PressT.setType (press : PressT) (type : BitVec PRESS_TYPE_BIT) : PressT :=
  BitField.write press 0 type

/-- A store to `press.fifo.depth`, which keeps as many bits as the field has. -/
def PressT.setFifoDepth (press : PressT) (depth : ULong) : PressT :=
  BitField.write press PRESS_TYPE_BIT (depth.setWidth PRESS_VAL_BIT)

/-- `app2dispatch_t`: an app reports to the dispatcher. -/
structure App2Dispatch where
  press      : PressT
  version    : Int
  tokenInUse : ULong
  deriving DecidableEq, Repr

theorem PressT.type_setType (press : PressT) (type : BitVec PRESS_TYPE_BIT) :
    (press.setType type).type = type :=
  BitField.extractLsb'_write _ _ _ (by decide)

theorem PressT.type_setFifoDepth (press : PressT) (depth : ULong) :
    (press.setFifoDepth depth).type = press.type :=
  BitField.extractLsb'_write_of_disjoint _ _ _ (by decide) (by decide)

/-- The depth is stored modulo `2 ^ PRESS_VAL_BIT`. -/
theorem PressT.toNat_fifoDepth_setFifoDepth (press : PressT) (depth : ULong) :
    (press.setFifoDepth depth).fifoDepth.toNat = depth.toNat % 2 ^ PRESS_VAL_BIT := by
  unfold fifoDepth setFifoDepth
  rw [BitField.extractLsb'_write _ _ _ (by decide), BitVec.toNat_setWidth, BitVec.toNat_setWidth,
    Nat.mod_eq_of_lt]
  have hBits : (2 : Nat) ^ PRESS_VAL_BIT ≤ 2 ^ 64 := by decide
  exact Nat.lt_of_lt_of_le (Nat.mod_lt _ (by decide)) hBits

theorem ULong.cmin_le_left (a b : ULong) : ULong.cmin a b ≤ a := by
  unfold ULong.cmin
  split <;> bv_omega

theorem ULong.cmin_le_right (a b : ULong) : ULong.cmin a b ≤ b := by
  unfold ULong.cmin
  split <;> bv_omega

@[simp] theorem ULong.zero_cmin (a : ULong) : ULong.cmin 0 a = 0 := by
  unfold ULong.cmin
  split <;> bv_omega

theorem ULong.toNat_cmin (a b : ULong) : (ULong.cmin a b).toNat = min a.toNat b.toNat := by
  unfold ULong.cmin
  split <;> bv_omega

theorem ULong.cmax_le {a b c : ULong} (ha : a ≤ c) (hb : b ≤ c) : ULong.cmax a b ≤ c := by
  unfold ULong.cmax
  split
  · exact ha
  · exact hb

theorem ULong.left_le_cmax (a b : ULong) : a ≤ ULong.cmax a b := by
  unfold ULong.cmax
  split <;> bv_omega

theorem ULong.right_le_cmax (a b : ULong) : b ≤ ULong.cmax a b := by
  unfold ULong.cmax
  split <;> bv_omega

/-- A step down from at least `step` towards `target` lowers the quota. -/
theorem stepDown_le {quota target step : ULong} (h : target < quota) (hr : step ≤ quota) :
    ULong.cmax target (quota - step) ≤ quota := by
  refine ULong.cmax_le ?_ ?_ <;> bv_omega

end DatastorQos
