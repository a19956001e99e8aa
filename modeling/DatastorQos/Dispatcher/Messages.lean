import DatastorQos.Dispatcher.Retargeting
import DatastorQos.Dispatcher.WaitIncrease

/-!
# datastor_qos — what a message of an app does

A message brings the demand of an app and confirms the tokens it has in use.

* `confirmation_gives_back_iff` — a confirmation takes tokens back, if any,
  unless it is of the current version and confirms more than the node has, up to
  its target: then it raises the quota, and reports the rise as tokens set free;
* `message_never_acts` — `rcvd` leaves its buffer unread: what it takes for the
  message is a local variable that nothing has written, so that no message has
  its effect for certain.
-/

namespace DatastorQos

variable {Id : Type} {ops : IdOps Id}

-- ---------------------------------------------------------------------------
-- Confirmations
-- ---------------------------------------------------------------------------

/-- The message raises no quota, and what it sets free is what the node has
less. -/
structure GivesBack (node : AppNode) (a2d : App2Dispatch) : Prop where
  not_raised : (node.rcvd a2d 0).1.tokenQuota ≤ node.tokenQuota
  free_eq    : (node.rcvd a2d 0).1.tokenQuota.toNat + (node.rcvd a2d 0).2.2.toNat =
    node.tokenQuota.toNat
  stale      : a2d.version ≠ node.version → (node.rcvd a2d 0).2.2 = 0

/-- The message confirms no more than the node has, or the node has its
target. -/
def ConfirmsWithin (node : AppNode) (a2d : App2Dispatch) : Prop :=
  a2d.version = node.version →
    a2d.tokenInUse ≤ node.tokenQuota ∨ node.tokenQuotaNew ≤ node.tokenQuota

/-- **A confirmation only gives tokens back**, exactly if it confirms within what
the node has. -/
theorem confirmation_gives_back_iff (node : AppNode) (a2d : App2Dispatch) :
    GivesBack node a2d ↔ ConfirmsWithin node a2d := by
  have hMin := ULong.toNat_cmin a2d.tokenInUse node.tokenQuotaNew
  unfold ConfirmsWithin
  simp only [BitVec.le_def]
  constructor
  · intro h hVersion
    by_contra hAbove
    obtain ⟨hInUse, hTarget⟩ := not_or.mp hAbove
    have hNotRaised := BitVec.le_def.mp h.not_raised
    rcases node.rcvd_cases a2d 0 with ⟨-, hWithin⟩ | ⟨-, -, heq⟩
    · have := BitVec.le_def.mp (hWithin hVersion)
      omega
    · rw [heq] at hNotRaised
      simp only at hNotRaised
      omega
  · intro h
    have hWithin : a2d.version = node.version →
        ULong.cmin a2d.tokenInUse node.tokenQuotaNew ≤ node.tokenQuota := by
      intro hVersion
      have := h hVersion
      rw [BitVec.le_def]
      omega
    obtain ⟨press, heq⟩ := AppNode.rcvd_keeps hWithin
    refine ⟨?_, ?_, fun _ => ?_⟩ <;> rw [heq]
    · exact BitVec.le_refl _
    · rfl

section TwentyConfirmed

theorem confirmation_gives_back_five : GivesBack tenOfTwenty ⟨0, 1, 5⟩ :=
  (confirmation_gives_back_iff _ _).mpr fun _ => Or.inl (by decide)

/-- Twenty tokens confirmed are twenty tokens had, and ten of them are reported
as set free. -/
theorem confirmation_raises_quota :
    ¬ ∀ (node : AppNode) (a2d : App2Dispatch), GivesBack node a2d := by
  intro hAlways
  have hNotRaised := (hAlways tenOfTwenty ⟨0, 1, 20⟩).not_raised
  revert hNotRaised
  decide

end TwentyConfirmed

-- ---------------------------------------------------------------------------
-- From the buffer to the node
-- ---------------------------------------------------------------------------

/-- What a message is to do to the node it is from. -/
structure ActedOn (node : AppNode) (msg : App2Dispatch) (node' : AppNode) : Prop where
  press : msg.version = node.version → node'.press = msg.press.fifoDepth
  quota : msg.version = node.version →
    node'.tokenQuota = (node.updateQuotaAfterRcvd msg.tokenInUse).1.tokenQuota
  stale : msg.version ≠ node.version → node' = node

namespace DispManager

variable {m m' : DispManager ops} {id : Id} {node : AppNode} {fuel : Nat}

/-- `sizeof(app2dispatch_t)`. -/
def sizeofApp2Dispatch : Int := 24

/-- `rcvd` of `len` bytes in `buf`. It asserts the length, and reads none of the
bytes: `a2d` is what its local variable holds. -/
def rcvdBuf (fuel : Nat) (m : DispManager ops) (id : Id) (len : Int) (_buf : List (BitVec 8))
    (a2d : App2Dispatch) : Option (DispManager ops) :=
  if len = sizeofApp2Dispatch then m.rcvd fuel id a2d else none

/-- The node of an id, if it is online. -/
def onlineNode? (m : DispManager ops) (id : Id) : Option AppNode :=
  (m.tab.find id).bind m.apps.node?

/-- `node_rcvd` gives the node of `id` what `msg` is to do to it, whatever the
local variable held before. -/
def ActsOnMessage (m : DispManager ops) (id : Id) (msg : App2Dispatch) : Prop :=
  ∀ node a2d, m.onlineNode? id = some node →
    ∃ m' res node', m.nodeRcvd id a2d = some (m', res) ∧ m'.onlineNode? id = some node' ∧
      ActedOn node msg node'

/-- `node_rcvd` of a node that is online. -/
theorem nodeRcvd_online (hNode : m.onlineNode? id = some node) (a2d : App2Dispatch) :
    ∃ m', m.nodeRcvd id a2d = some (m', some (false, (node.rcvd a2d 0).2.2)) ∧
      m'.onlineNode? id = some (node.rcvd a2d 0).1 := by
  obtain ⟨ptr, hFind, hNode⟩ := Option.bind_eq_some_iff.mp hNode
  refine ⟨{ m with apps := m.apps.setNode (node.rcvd a2d 0).1 }, ?_, ?_⟩
  · unfold nodeRcvd
    rw [hFind]
    simp only [hNode, Option.bind_eq_bind, Option.bind_some, Option.pure_def,
      ← node.rcvd_isReset a2d 0]
  · simp only [onlineNode?, hFind, Option.bind_some]
    rw [AppNodes.node?_setNode_rcvd hNode, if_pos rfl]

/-- A rebalance and the serving of the list keep what a message has changed. -/
theorem updatePolicy_keeps {isDirect : Bool} (h : m.updatePolicy fuel isDirect = some m') :
    m'.tab = m.tab ∧ Retargeted m.apps m'.apps := by
  have hServe : ∀ m₁ : DispManager ops, ∀ m₂, m₁.execute = some m₂ →
      m₂.tryClearWaitIncrease fuel = some m' →
      m'.tab = m₁.tab ∧ Retargeted m₁.apps m'.apps := by
    intro m₁ m₂ hExecute hClear
    obtain ⟨hTab, -, hNodes, -⟩ := tryClearWaitIncrease_frame hClear
    have hServed : Retargeted m₂.apps m'.apps := fun x => by rw [hNodes]
    unfold DispManager.execute at hExecute
    split at hExecute
    · obtain rfl := Option.some.inj hExecute
      exact ⟨hTab, hServed⟩
    · obtain ⟨apps, ctx, rfl, hRetargeted⟩ := retargeted hExecute
      exact ⟨hTab, hRetargeted.trans hServed⟩
  unfold DispManager.updatePolicy at h
  split at h
  · obtain ⟨m₂, hExecute, hClear⟩ := Option.bind_eq_some_iff.mp h
    obtain ⟨hTab, hRetargeted⟩ := hServe _ m₂ hExecute hClear
    exact ⟨hTab, hRetargeted⟩
  · split at h
    · obtain rfl := Option.some.inj h
      exact ⟨rfl, .refl _⟩
    · obtain ⟨m₂, hExecute, hClear⟩ := Option.bind_eq_some_iff.mp h
      obtain ⟨hTab, hRetargeted⟩ := hServe _ m₂ hExecute hClear
      exact ⟨hTab, hRetargeted⟩

/-- The whole call leaves the node with the press and the quota that the local
variable brings, whatever the buffer holds. -/
theorem rcvdBuf_node (hNode : m.onlineNode? id = some node) {len : Int} {buf : List (BitVec 8)}
    {a2d : App2Dispatch} (h : m.rcvdBuf fuel id len buf a2d = some m') :
    ∃ node', m'.onlineNode? id = some node' ∧ node'.press = (node.rcvd a2d 0).1.press ∧
      node'.tokenQuota = (node.rcvd a2d 0).1.tokenQuota := by
  obtain ⟨m₁, hRcvd, hNode₁⟩ := nodeRcvd_online hNode a2d
  have hKept : ∀ m₂ : DispManager ops, m₂.tab = m₁.tab → Retargeted m₁.apps m₂.apps →
      ∃ node', m₂.onlineNode? id = some node' ∧ node'.press = (node.rcvd a2d 0).1.press ∧
        node'.tokenQuota = (node.rcvd a2d 0).1.tokenQuota := by
    intro m₂ hTab hRetargeted
    obtain ⟨ptr, hFind, hNode₁⟩ := Option.bind_eq_some_iff.mp hNode₁
    obtain ⟨node', hNode', hSame⟩ := hRetargeted.node? hNode₁
    refine ⟨node', ?_, AppNode.press_of_untargeted hSame, AppNode.tokenQuota_of_untargeted hSame⟩
    simp only [onlineNode?, hTab, hFind, Option.bind_some, hNode']
  obtain ⟨ptr, hFind, -⟩ := Option.bind_eq_some_iff.mp hNode
  have hCheck : m.checkOnline fuel id = some m := by simp only [checkOnline, hFind]
  unfold rcvdBuf rcvd at h
  split at h
  · simp only [hCheck, hRcvd, Option.bind_eq_bind, Option.bind_some, Bool.false_eq_true,
      if_false] at h
    split at h
    · obtain ⟨hTab, -, hNodes, -⟩ := tryClearWaitIncrease_frame h
      exact hKept m' hTab fun x => by rw [hNodes]; rfl
    · obtain ⟨hTab, hRetargeted⟩ := updatePolicy_keeps h
      exact hKept m' hTab hRetargeted
  · cases h

end DispManager

/-- Some press has another depth. -/
theorem PressT.exists_fifoDepth_ne (depth : ULong) : ∃ press : PressT, press.fifoDepth ≠ depth := by
  by_cases h : depth = 0
  · exact ⟨4, by rw [h]; decide⟩
  · exact ⟨0, fun heq => h (heq ▸ by decide)⟩

/-- **A message is never acted on for certain**: for every node that is online and
every message, some content of the local variable has another effect. What the
call leaves behind is the effect of that variable. -/
theorem message_never_acts {m : DispManager ops} {id : Id} {node : AppNode}
    (hNode : m.onlineNode? id = some node) (msg : App2Dispatch) :
    ¬ m.ActsOnMessage id msg ∧
      ∀ fuel len buf a2d m', m.rcvdBuf fuel id len buf a2d = some m' →
        ∃ node', m'.onlineNode? id = some node' ∧ node'.press = (node.rcvd a2d 0).1.press ∧
          node'.tokenQuota = (node.rcvd a2d 0).1.tokenQuota := by
  refine ⟨fun hActs => ?_, fun fuel len buf a2d m' h => DispManager.rcvdBuf_node hNode h⟩
  -- the variable holds the node's version, and another depth than is called for
  obtain ⟨press, hPress⟩ := PressT.exists_fifoDepth_ne
    (if msg.version = node.version then msg.press.fifoDepth else node.press)
  obtain ⟨m₁, res, node₁, hRcvd, hNode₁, hActed⟩ := hActs node ⟨press, node.version, 0⟩ hNode
  obtain ⟨m₂, hRcvd', hNode₂⟩ := DispManager.nodeRcvd_online hNode ⟨press, node.version, 0⟩
  obtain ⟨rfl, -⟩ := Prod.mk.inj (Option.some.inj (hRcvd.symm.trans hRcvd'))
  obtain rfl := Option.some.inj (hNode₂.symm.trans hNode₁)
  have hBrought : (node.rcvd ⟨press, node.version, 0⟩ 0).1.press = press.fifoDepth :=
    node.rcvd_press 0 rfl
  split at hPress
  · exact hPress (hBrought.symm.trans (hActed.press ‹_›))
  · exact hPress (hBrought.symm.trans (congrArg AppNode.press (hActed.stale ‹_›)))

section ZeroedLocal

theorem message_never_acts_one_app : ¬ oneHasMinimum.ActsOnMessage 1 ⟨20, 0, 0⟩ := by
  obtain ⟨node, hNode⟩ := Option.isSome_iff_exists.mp
    (show (oneHasMinimum.onlineNode? 1).isSome = true by decide)
  exact (message_never_acts hNode ⟨20, 0, 0⟩).1

/-- The app of node 1 reports a demand of five; the local variable holds zeros. -/
theorem reported_demand_is_lost :
    ¬ ∀ (m : DispManager IdOps.nat) (id : ℕ) (node : AppNode) (msg : App2Dispatch),
      m.onlineNode? id = some node → m.ActsOnMessage id msg := by
  intro hAlways
  obtain ⟨node, hNode⟩ := Option.isSome_iff_exists.mp
    (show (oneHasMinimum.onlineNode? 1).isSome = true by decide)
  obtain ⟨m', res, node', hRcvd, hNode', hActed⟩ :=
    hAlways oneHasMinimum 1 node ⟨20, 0, 0⟩ hNode node ⟨0, 0, 0⟩ hNode
  have hVersion : (oneHasMinimum.onlineNode? 1).map AppNode.version = some 0 := by decide
  have hPress : (oneHasMinimum.nodeRcvd 1 ⟨0, 0, 0⟩).bind
      (fun res => (res.1.onlineNode? 1).map AppNode.press) = some 0 := by decide
  rw [hNode] at hVersion
  rw [hRcvd, Option.bind_some, hNode'] at hPress
  have hDepth := hActed.press (Option.some.inj hVersion).symm
  rw [show node'.press = 0 from Option.some.inj hPress] at hDepth
  revert hDepth
  decide

end ZeroedLocal

end DatastorQos
