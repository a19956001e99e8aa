import DatastorQos.Interface

/-!
# dispatch_base_node — the quota counters of one node, app side

The model of `sysqos_dispatch_base_node.c`. A base node keeps what the
dispatcher last offered (`tokenQuota`, stepping down towards
`tokenQuotaNew`), what the app has taken (`tokenInuse`) and the version of the
last message it accepted.

Each function of the source that holds the node's lock once is one definition;
`try_alloc_from_desc` takes the lock twice (once to check, once to check again
and charge), so it is the composition of `checkAllocFromDesc` and
`chargeSection`, which the concurrent model runs as separate atomic steps.
-/

namespace DatastorQos

/-- `dispatch_base_node_t`. -/
structure DispatchBaseNode where
  tokenInuse    : ULong
  tokenQuota    : ULong
  tokenQuotaNew : ULong
  respondStep   : ULong
  version       : Int
  deriving DecidableEq, Repr

namespace DispatchBaseNode

/-- `dispatch_base_node_init`. -/
def init : DispatchBaseNode where
  tokenInuse    := 0
  tokenQuota    := MIN_RS_NUM
  tokenQuotaNew := MIN_RS_NUM
  respondStep   := MMAX_RESPOND_STEP
  version       := 0

/-- `is_to_reset`: the message is older than what the node has. -/
def isToReset (b : DispatchBaseNode) (newVer : Int) : Bool :=
  decide (newVer < b.version)

/-- `is_version_same`. -/
def isVersionSame (b : DispatchBaseNode) (newVer : Int) : Bool :=
  decide (newVer - b.version = 0)

/-- The write-locked section of `check_update_total_version`: the new node and
whether the quota was increased. -/
def updateSection (b : DispatchBaseNode) (newTotal : ULong) (newVer : Int) :
    DispatchBaseNode × Bool :=
  if newVer - b.version > 0 then
    if b.tokenQuota < newTotal then
      ({ b with tokenQuota := newTotal, tokenQuotaNew := newTotal, version := newVer }, true)
    else if b.tokenQuota > newTotal then
      ({ b with
          tokenQuotaNew := newTotal
          tokenQuota := ULong.cmax newTotal (b.tokenQuota - b.respondStep)
          version := newVer }, false)
    else
      ({ b with version := newVer }, false)
  else
    (b, false)

/-- What `check_update_total_version` hands back: its return value and
`*is_reset`. -/
structure UpdateResult where
  isIncreased : Bool
  isReset     : Bool
  deriving DecidableEq, Repr

/-- `check_update_total_version`. -/
def checkUpdateTotalVersion (b : DispatchBaseNode) (newTotal : ULong) (newVer : Int) :
    DispatchBaseNode × UpdateResult :=
  if b.isToReset newVer then
    (b, ⟨false, true⟩)
  else if b.isVersionSame newVer then
    (b, ⟨false, false⟩)
  else
    let (b', isIncreased) := b.updateSection newTotal newVer
    (b', ⟨isIncreased, false⟩)

/-- `check_alloc_from_desc`, the read-locked section of an allocation. The sum
is computed in `unsigned long`. -/
def checkAllocFromDesc (b : DispatchBaseNode) (cost : ULong) : QosError :=
  if cost + b.tokenInuse > b.tokenQuota then .pending else .ok

/-- The write-locked section of `try_alloc_from_desc`: check again, charge, and
step the quota down if a lower one is pending. It reports nothing. -/
def chargeSection (b : DispatchBaseNode) (cost : ULong) : DispatchBaseNode :=
  if cost + b.tokenInuse ≤ b.tokenQuota then
    { b with
      tokenInuse := b.tokenInuse + cost
      tokenQuota :=
        if b.tokenQuotaNew < b.tokenQuota then
          ULong.cmax b.tokenQuotaNew (b.tokenQuota - b.respondStep)
        else b.tokenQuota }
  else b

/-- `try_alloc_from_desc`, run without interference. -/
def tryAllocFromDesc (b : DispatchBaseNode) (cost : ULong) : DispatchBaseNode × QosError :=
  match b.checkAllocFromDesc cost with
  | .ok => (b.chargeSection cost, .ok)
  | err => (b, err)

/-- `free_to_desc`. -/
def freeToDesc (b : DispatchBaseNode) (cost : ULong) : DispatchBaseNode :=
  { b with tokenInuse := b.tokenInuse - cost }

/-- `reset`. -/
def reset (b : DispatchBaseNode) : DispatchBaseNode :=
  { b with tokenQuota := MIN_RS_NUM, tokenQuotaNew := MIN_RS_NUM, version := 0 }

/-! ## What each call does -/

/-- A request of this cost is admitted: the sum, as the code computes it, is
within the quota. -/
def Fits (b : DispatchBaseNode) (cost : ULong) : Prop := cost + b.tokenInuse ≤ b.tokenQuota

instance (b : DispatchBaseNode) (cost : ULong) : Decidable (b.Fits cost) :=
  inferInstanceAs (Decidable (_ ≤ _))

theorem checkAllocFromDesc_of_fits {b : DispatchBaseNode} {cost : ULong} (h : b.Fits cost) :
    b.checkAllocFromDesc cost = .ok := by
  unfold checkAllocFromDesc
  rw [if_neg]
  exact BitVec.not_lt.mpr h

theorem checkAllocFromDesc_of_not_fits {b : DispatchBaseNode} {cost : ULong}
    (h : ¬ b.Fits cost) : b.checkAllocFromDesc cost = .pending := by
  unfold checkAllocFromDesc
  rw [if_pos]
  exact BitVec.not_le.mp h

theorem tryAllocFromDesc_of_fits {b : DispatchBaseNode} {cost : ULong} (h : b.Fits cost) :
    b.tryAllocFromDesc cost = (b.chargeSection cost, .ok) := by
  simp [tryAllocFromDesc, checkAllocFromDesc_of_fits h]

theorem tryAllocFromDesc_of_not_fits {b : DispatchBaseNode} {cost : ULong}
    (h : ¬ b.Fits cost) : b.tryAllocFromDesc cost = (b, .pending) := by
  simp [tryAllocFromDesc, checkAllocFromDesc_of_not_fits h]

/-- An allocation either charges an admitted request or changes nothing. -/
theorem tryAllocFromDesc_cases (b : DispatchBaseNode) (cost : ULong) :
    (b.Fits cost ∧ b.tryAllocFromDesc cost = (b.chargeSection cost, .ok)) ∨
    (¬ b.Fits cost ∧ b.tryAllocFromDesc cost = (b, .pending)) := by
  by_cases h : b.Fits cost
  · exact Or.inl ⟨h, tryAllocFromDesc_of_fits h⟩
  · exact Or.inr ⟨h, tryAllocFromDesc_of_not_fits h⟩

theorem chargeSection_tokenInuse {b : DispatchBaseNode} {cost : ULong} (h : b.Fits cost) :
    (b.chargeSection cost).tokenInuse = b.tokenInuse + cost := by
  unfold Fits at h
  simp [chargeSection, h]

theorem chargeSection_of_not_fits {b : DispatchBaseNode} {cost : ULong} (h : ¬ b.Fits cost) :
    b.chargeSection cost = b := by
  unfold chargeSection
  exact if_neg h

/-- A charge moves the two counters only. -/
theorem chargeSection_frame (b : DispatchBaseNode) (cost : ULong) :
    b.chargeSection cost = { b with
      tokenInuse := (b.chargeSection cost).tokenInuse
      tokenQuota := (b.chargeSection cost).tokenQuota } := by
  unfold chargeSection
  split <;> rfl

/-- With no lower quota pending, a charge leaves the quota alone. -/
theorem chargeSection_tokenQuota {b : DispatchBaseNode} {cost : ULong}
    (h : b.tokenQuotaNew = b.tokenQuota) :
    (b.chargeSection cost).tokenQuota = b.tokenQuota := by
  unfold chargeSection
  split
  · rw [h]
    simp
  · rfl

@[simp] theorem chargeSection_tokenQuotaNew (b : DispatchBaseNode) (cost : ULong) :
    (b.chargeSection cost).tokenQuotaNew = b.tokenQuotaNew := by
  unfold chargeSection
  split <;> rfl

/-- The quota is where it should be, or above it and able to step down. -/
def StepsDown (b : DispatchBaseNode) : Prop :=
  b.tokenQuotaNew = b.tokenQuota ∨
    b.respondStep ≤ b.tokenQuotaNew ∧ b.tokenQuotaNew < b.tokenQuota

theorem StepsDown.charge {b : DispatchBaseNode} (h : b.StepsDown) (cost : ULong) :
    (b.chargeSection cost).StepsDown ∧ (b.chargeSection cost).tokenQuota ≤ b.tokenQuota := by
  unfold chargeSection
  split
  · rcases h with hSame | ⟨hStep, hDown⟩
    · have hNot : ¬ b.tokenQuotaNew < b.tokenQuota := by
        rw [hSame]
        exact BitVec.lt_irrefl _
      simp only [if_neg hNot]
      exact ⟨Or.inl hSame, BitVec.le_refl _⟩
    · simp only [if_pos hDown]
      unfold StepsDown ULong.cmax
      simp only
      split
      · exact ⟨Or.inl rfl, BitVec.le_of_lt hDown⟩
      · rename_i hLeft
        -- the step is no larger than the target, so the difference did not wrap
        refine ⟨?_, by bv_omega⟩
        by_cases hThere : b.tokenQuotaNew = b.tokenQuota - b.respondStep
        · exact Or.inl hThere
        · exact Or.inr ⟨hStep, by bv_omega⟩
  · exact ⟨h, BitVec.le_refl _⟩

@[simp] theorem tryAllocFromDesc_tokenQuotaNew (b : DispatchBaseNode) (cost : ULong) :
    (b.tryAllocFromDesc cost).1.tokenQuotaNew = b.tokenQuotaNew := by
  rcases b.tryAllocFromDesc_cases cost with ⟨-, e⟩ | ⟨-, e⟩ <;> rw [e]
  exact b.chargeSection_tokenQuotaNew cost

@[simp] theorem tryAllocFromDesc_version (b : DispatchBaseNode) (cost : ULong) :
    (b.tryAllocFromDesc cost).1.version = b.version := by
  rcases b.tryAllocFromDesc_cases cost with ⟨-, e⟩ | ⟨-, e⟩ <;> rw [e]
  rw [b.chargeSection_frame cost]

@[simp] theorem freeToDesc_tokenInuse (b : DispatchBaseNode) (cost : ULong) :
    (b.freeToDesc cost).tokenInuse = b.tokenInuse - cost := rfl

@[simp] theorem freeToDesc_tokenQuota (b : DispatchBaseNode) (cost : ULong) :
    (b.freeToDesc cost).tokenQuota = b.tokenQuota := rfl

@[simp] theorem freeToDesc_tokenQuotaNew (b : DispatchBaseNode) (cost : ULong) :
    (b.freeToDesc cost).tokenQuotaNew = b.tokenQuotaNew := rfl

@[simp] theorem reset_tokenInuse (b : DispatchBaseNode) : b.reset.tokenInuse = b.tokenInuse := rfl

/-- The four things a quota message can do to a node. -/
theorem checkUpdateTotalVersion_cases (b : DispatchBaseNode) (newTotal : ULong) (newVer : Int) :
    (newVer < b.version ∧
      b.checkUpdateTotalVersion newTotal newVer = (b, ⟨false, true⟩)) ∨
    (newVer = b.version ∧
      b.checkUpdateTotalVersion newTotal newVer = (b, ⟨false, false⟩)) ∨
    (b.version < newVer ∧ b.tokenQuota < newTotal ∧
      b.checkUpdateTotalVersion newTotal newVer =
        ({ b with tokenQuota := newTotal, tokenQuotaNew := newTotal, version := newVer },
          ⟨true, false⟩)) ∨
    (b.version < newVer ∧ newTotal < b.tokenQuota ∧
      b.checkUpdateTotalVersion newTotal newVer =
        ({ b with
            tokenQuotaNew := newTotal
            tokenQuota := ULong.cmax newTotal (b.tokenQuota - b.respondStep)
            version := newVer }, ⟨false, false⟩)) ∨
    (b.version < newVer ∧ newTotal = b.tokenQuota ∧
      b.checkUpdateTotalVersion newTotal newVer =
        ({ b with version := newVer }, ⟨false, false⟩)) := by
  rcases Int.lt_trichotomy newVer b.version with hlt | heq | hgt
  · left
    simp [checkUpdateTotalVersion, isToReset, hlt]
  · right; left
    simp [checkUpdateTotalVersion, isToReset, isVersionSame, heq]
  · right; right
    have hReset : b.isToReset newVer = false := by simp [isToReset]; omega
    have hSame : b.isVersionSame newVer = false := by simp [isVersionSame]; omega
    have hPos : newVer - b.version > 0 := by omega
    simp only [checkUpdateTotalVersion, hReset, hSame, updateSection, if_pos hPos]
    by_cases hUp : b.tokenQuota < newTotal
    · left
      simp [hgt, hUp]
    · right
      by_cases hDown : b.tokenQuota > newTotal
      · left
        simp only [if_neg hUp, if_pos hDown]
        exact ⟨hgt, hDown, by simp⟩
      · right
        simp only [if_neg hUp, if_neg hDown]
        exact ⟨hgt, by bv_omega, by simp⟩

@[simp] theorem checkUpdateTotalVersion_tokenInuse (b : DispatchBaseNode) (newTotal : ULong)
    (newVer : Int) : (b.checkUpdateTotalVersion newTotal newVer).1.tokenInuse = b.tokenInuse := by
  rcases b.checkUpdateTotalVersion_cases newTotal newVer with
    ⟨-, h⟩ | ⟨-, h⟩ | ⟨-, -, h⟩ | ⟨-, -, h⟩ | ⟨-, -, h⟩ <;> rw [h]

end DispatchBaseNode

end DatastorQos
