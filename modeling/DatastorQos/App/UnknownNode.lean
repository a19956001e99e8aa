import DatastorQos.App.ManagerRuns

/-!
# datastor_qos — a message from an unknown node

`rcvd` is meant to bring an unknown node online and to try again. The `continue`
that should go round the loop leaves it, since the loop is `do … while ( 0 )`,
so the node comes online and the message is gone.

* `rcvd_unknown_iff` — that makes no difference exactly for messages of version
  0 or below, which change nothing at a new node;
* `first_message_is_lost` — a first message of version 1 is one that is lost.
-/

namespace DatastorQos

variable {Id : Type} {ops : IdOps Id} {m m' : Manager ops} {id : Id} {dta : Dispatch2App}

/-- The node caches have room for one more node. -/
def Manager.HasRoom (m : Manager ops) : Prop :=
  m.managerItemCache.alloc.isSome ∧ m.appNodeTable.cache.alloc.isSome

instance (m : Manager ops) : Decidable m.HasRoom := inferInstanceAs (Decidable (_ ∧ _))

/-- With room a node that is not online comes online as a new node, and nothing
else happens. -/
theorem nodeOnline_new (hRoom : m.HasRoom) (hNone : m.node? id = none) :
    ∃ m', m.nodeOnline id = some m' ∧
      m'.node? id = some (.init (BitVec.ofNat 32 m.version)) := by
  obtain ⟨cache, hCache⟩ := Option.isSome_iff_exists.mp hRoom.1
  obtain ⟨tableCache, hTable⟩ := Option.isSome_iff_exists.mp hRoom.2
  have hFind : m.appNodeTable.find id = none := hNone
  obtain ⟨table, hInsert⟩ : ∃ table, m.appNodeTable.insert id
      (.init (BitVec.ofNat 32 m.version)) = some (table, .ok) := by
    simp [HashTable.insert, hTable, hFind]
  refine ⟨{ m with
    managerItemCache := cache
    version          := m.version + 1
    appNodeTable     := table }, ?_, ?_⟩
  · simp only [Manager.nodeOnline, hCache, hInsert]
  · exact (HashTable.find_insert hInsert).2.trans (if_pos (ops.same_refl id))

/-- A new node after its first message. -/
def DispatchNode.afterFirst (fence : BitVec 32) (dta : Dispatch2App) : DispatchNode Id where
  baseNode     := (DispatchBaseNode.init.checkUpdateTotalVersion dta.tokenQuota dta.version).1
  lheadNodereq := .init
  fenceId      := fence

/-- With nothing queued, a message changes only the counters. -/
theorem resourceChanged_init (fence : BitVec 32) (h : GrpHeap Id) (dta : Dispatch2App) :
    (DispatchNode.init fence).resourceChanged h dta [] =
      (.afterFirst fence dta, h, [], decide (dta.version < 0)) := by
  unfold DispatchNode.resourceChanged DispatchNode.afterFirst
  rcases DispatchBaseNode.init.checkUpdateTotalVersion_cases dta.tokenQuota dta.version with
    ⟨hv, heq⟩ | ⟨hv, heq⟩ | ⟨hv, -, heq⟩ | ⟨hv, -, heq⟩ | ⟨hv, -, heq⟩ <;>
  · simp only [DispatchNode.init, heq]
    simp only [DispatchBaseNode.init] at hv
    simp [DispatchNode.resourceIncreased, NodereqList.init, NodereqList.front]
    omega

/-- A new node aims at the quota of its first message. -/
theorem init_message (quota : ULong) {version : Int} (hVersion : 0 < version) :
    (DispatchBaseNode.init.checkUpdateTotalVersion quota version).1.version = version ∧
      (DispatchBaseNode.init.checkUpdateTotalVersion quota version).1.tokenQuotaNew = quota := by
  rcases DispatchBaseNode.init.checkUpdateTotalVersion_cases quota version with
    ⟨hv, h⟩ | ⟨hv, h⟩ | ⟨-, -, h⟩ | ⟨-, -, h⟩ | ⟨-, hq, h⟩
  · simp only [DispatchBaseNode.init] at hv
    omega
  · simp only [DispatchBaseNode.init] at hv
    omega
  · rw [h]
    exact ⟨rfl, rfl⟩
  · rw [h]
    exact ⟨rfl, rfl⟩
  · rw [h]
    exact ⟨rfl, hq.symm⟩

theorem Manager.setNode_self {n : DispatchNode Id} (hn : m.node? id = some n) :
    m.setNode id n m.groups = m := by
  unfold setNode
  rw [HashTable.write_self hn]

/-- What a node does with its first message. -/
theorem rcvd_at_new_node {fence : BitVec 32} (hn : m.node? id = some (.init fence))
    (dta : Dispatch2App) :
    (dta.version ≤ 0 → m.rcvd id dta = some (m, [])) ∧
    (0 < dta.version → ∃ m' n, m.rcvd id dta = some (m', []) ∧ m'.node? id = some n ∧
      n.baseNode.version = dta.version ∧ n.baseNode.tokenQuotaNew = dta.tokenQuota) := by
  unfold Manager.rcvd
  simp only [hn, resourceChanged_init, endTokenGrps, List.filterMap_nil]
  constructor
  · intro hVersion
    -- the message is old, or no news: a new node is as a reset leaves it
    have hSame : DispatchNode.afterFirst fence dta = (.init fence : DispatchNode Id) := by
      unfold DispatchNode.afterFirst
      rcases DispatchBaseNode.init.checkUpdateTotalVersion_cases dta.tokenQuota dta.version with
        ⟨-, h⟩ | ⟨-, h⟩ | ⟨hv, -⟩ | ⟨hv, -⟩ | ⟨hv, -⟩
      · rw [h]
        rfl
      · rw [h]
        rfl
      · exact absurd hv (Int.not_lt.mpr hVersion)
      · exact absurd hv (Int.not_lt.mpr hVersion)
      · exact absurd hv (Int.not_lt.mpr hVersion)
    rw [hSame, Manager.setNode_self hn]
    split
    · unfold Manager.nodeReset
      rw [hn]
      exact congrArg (fun m => some (m, [])) (Manager.setNode_self hn)
    · rfl
  · intro hVersion
    obtain ⟨hNew, hTarget⟩ := init_message dta.tokenQuota hVersion
    rw [if_neg (by simpa using Int.le_of_lt hVersion)]
    have hNode : (m.setNode id (.afterFirst fence dta) m.groups).node? id =
        some (.afterFirst fence dta) := by
      rw [node?_setNode hn]
      exact if_pos (ops.same_refl id)
    exact ⟨_, _, rfl, hNode, hNew, hTarget⟩

/-- The message is not lost: it finds its node, which came online before. -/
structure NotLost (m : Manager ops) (id : Id) (dta : Dispatch2App) : Prop where
  redelivered : m.rcvd id dta = (m.nodeOnline id).bind (·.rcvd id dta)
  learned     : 0 < dta.version → ∃ m' callbacks n, m.rcvd id dta = some (m', callbacks) ∧
    m'.node? id = some n ∧
    n.baseNode.version = dta.version ∧ n.baseNode.tokenQuotaNew = dta.tokenQuota

/-- What `rcvd` does for an unknown node is to bring it online. -/
theorem rcvd_unknown (hNone : m.node? id = none) (dta : Dispatch2App) :
    m.rcvd id dta = (m.nodeOnline id).map fun m => (m, []) := by
  unfold Manager.rcvd
  rw [hNone]

theorem version_le_of_notLost (hRoom : m.HasRoom) (hNone : m.node? id = none)
    (h : NotLost m id dta) : dta.version ≤ 0 := by
  by_contra hNew
  obtain ⟨m₁, hOnline, hn⟩ := nodeOnline_new hRoom hNone
  obtain ⟨m', callbacks, n, heq, hn', hVersion, -⟩ := h.learned (Int.not_le.mp hNew)
  rw [rcvd_unknown hNone, hOnline] at heq
  obtain ⟨rfl, -⟩ := Prod.mk.inj (Option.some.inj heq)
  obtain rfl := Option.some.inj (hn.symm.trans hn')
  exact hNew (Int.le_of_eq hVersion.symm)

/-- **A message from an unknown node** is lost exactly if it is news. -/
theorem rcvd_unknown_iff (hRoom : m.HasRoom) (hNone : m.node? id = none) :
    NotLost m id dta ↔ dta.version ≤ 0 := by
  refine ⟨version_le_of_notLost hRoom hNone, fun hVersion => ?_⟩
  obtain ⟨m₁, hOnline, hn⟩ := nodeOnline_new hRoom hNone
  refine ⟨?_, fun hNew => absurd hNew (Int.not_lt.mpr hVersion)⟩
  rw [rcvd_unknown hNone, hOnline, Option.bind_some, (rcvd_at_new_node hn dta).1 hVersion]
  rfl

section FirstMessage

/-- A manager without nodes, with room for eight. -/
def noNodes : Manager IdOps.nat := .init IdOps.nat 2 8 8 8 Nat.two_pos

/-- A message of version 0 changes nothing at a new node. -/
theorem rcvd_unknown_version_zero : NotLost noNodes 1 ⟨20, 0⟩ :=
  (rcvd_unknown_iff (by decide) (by decide)).mpr (by decide)

/-- A quota of 20 tokens, announced as version 1, is not learned. -/
theorem first_message_is_lost :
    ¬ ∀ (m : Manager IdOps.nat) (id : ℕ) (dta : Dispatch2App),
      m.HasRoom → m.node? id = none → NotLost m id dta := by
  intro hAlways
  have hRoom : noNodes.HasRoom := by decide
  have hOld := version_le_of_notLost hRoom (by decide) (hAlways noNodes 1 ⟨20, 1⟩ hRoom (by decide))
  revert hOld
  decide

end FirstMessage

end DatastorQos
