import DatastorQos.Lib.Network
import DatastorQos.App.BaseCalls
import DatastorQos.Dispatcher.Announcements

/-!
# datastor_qos — one app and its dispatcher

The dispatcher keeps an app node for the app, the app a base node for the
dispatcher, and quota messages travel from the first to the second over a
network. The dispatcher confirms what its `rcvd` finds in an uninitialised
local, so its steps are those of the node for any message at all; nothing that
the app sends is needed to model them.

* `Connection.Inv` — what the app believes in and what it uses is within what
  the dispatcher holds for it, and no message in flight announces more;
* `Connection.Versioned` — what holds whatever the app allocates and frees: its
  version is not ahead, and no message in flight is;
* `use_within_held` — so it is in every state, over any network, if no app is
  guaranteed less than `MMAX_RESPOND_STEP` tokens, and none overflows a sum or
  frees what is not in use.
-/

namespace DatastorQos

open Runs

variable {τ : Type*}

-- ---------------------------------------------------------------------------
-- The two parties, and what is between them
-- ---------------------------------------------------------------------------

/-- The node of the dispatcher, the base node of the app, and the network from
the first to the second. -/
structure Connection (τ : Type*) where
  disp : AppNodeState
  base : DispatchBaseNode
  net  : τ

/-- Who moves: the dispatcher, the network, or the app. -/
inductive ConnectionAct where
  | dispatcher (call : AppNodeCall)
  /-- `snd_msg_buf` of the dispatcher, and the network takes the message -/
  | announce
  /-- `rcvd` of the app -/
  | deliver (dta : Dispatch2App)
  /-- `rcvd` of an app without a node for the dispatcher: it makes one, and the
  message is not looked at -/
  | missed (dta : Dispatch2App)
  | app (op : BaseOp)
  /-- `node_offline` and `node_online` of the app -/
  | reconnect

/-- A node is brought online once, with the minimum it was made with, and called
only while it is online. -/
def AppNodeCall.InTurn (s : AppNodeState) : AppNodeCall → Prop
  | .online tokens => ¬ s.isOnline ∧ tokens.defaultTokenMin = s.node.limit.min
  | _ => s.isOnline

namespace Connection

/-- One step: of the dispatcher's node, of the network, or of the app's. -/
def Step (N : Network τ Dispatch2App) (s : Connection τ) : ConnectionAct → Connection τ → Prop
  | .dispatcher call, s' => call.InTurn s.disp ∧ appNodeSystem.step s.disp call s'.disp ∧
      s'.base = s.base ∧ s'.net = s.net
  | .announce, s' => s.disp.isOnline ∧ N.send s.net s.disp.node.getProtocol s'.net ∧
      s'.disp = s.disp ∧ s'.base = s.base
  | .deliver dta, s' => N.deliver s.net dta s'.net ∧ s'.base = s.base.rcvd dta ∧ s'.disp = s.disp
  | .missed dta, s' => N.deliver s.net dta s'.net ∧ s'.base = .init ∧ s'.disp = s.disp
  | .app op, s' => op.IsOwn ∧ s' = { s with base := s.base.apply op }
  | .reconnect, s' => s' = { s with base := .init }

/-- What the dispatcher holds for the app, or what every app starts with. -/
def held (s : Connection τ) : ULong := ULong.cmax MIN_RS_NUM s.disp.node.tokenQuota

end Connection

/-- A connection to an app that is guaranteed `minUnits`. -/
def connectionSystem (N : Network τ Dispatch2App) (minUnits : ULong) :
    System (Connection τ) ConnectionAct where
  init s := ∃ ptr fenceId, s = ⟨⟨.init ptr minUnits fenceId, False⟩, .init, N.empty⟩
  step := Connection.Step N

abbrev ConnectionTransition (τ : Type*) := Transition (Connection τ) ConnectionAct

/-- The app overflows no sum, and frees what is in use. -/
def ConnectionTransition.WellUsed (x : ConnectionTransition τ) : Prop :=
  match x.act with
  | .app op => op.WellUsed x.pre.base
  | _ => True

-- ---------------------------------------------------------------------------
-- The app
-- ---------------------------------------------------------------------------

namespace DispatchBaseNode

/-- The three counters are within `bound`, and no step down wraps. -/
structure Within (bound : ULong) (b : DispatchBaseNode) : Prop where
  respondStep : b.respondStep = MMAX_RESPOND_STEP
  step_le     : MMAX_RESPOND_STEP ≤ b.tokenQuotaNew
  new_le      : b.tokenQuotaNew ≤ b.tokenQuota
  quota_le    : b.tokenQuota ≤ bound
  inuse_le    : b.tokenInuse ≤ bound

namespace Within

variable {b : DispatchBaseNode} {bound bound' : ULong}

/-- A base node starts with the least that any app has. -/
theorem init (h : MIN_RS_NUM ≤ bound) : DispatchBaseNode.init.Within bound where
  respondStep := rfl
  step_le := by decide
  new_le := BitVec.le_refl _
  quota_le := h
  inuse_le := BitVec.le_trans (by decide) h

/-- A larger bound. -/
theorem mono (h : b.Within bound) (hLe : bound ≤ bound') : b.Within bound' :=
  { h with
    quota_le := BitVec.le_trans h.quota_le hLe
    inuse_le := BitVec.le_trans h.inuse_le hLe }

/-- The quota is at least the step, so stepping down does not wrap. -/
theorem inRange (h : b.Within bound) (op : BaseOp) : StepsDownInRange b op := by
  have hStep : b.respondStep ≤ b.tokenQuota := by
    rw [h.respondStep]
    exact BitVec.le_trans h.step_le h.new_le
  cases op with
  | message quota version => exact fun _ _ => hStep
  | alloc cost => exact fun _ _ => hStep
  | free cost => trivial
  | reset => trivial

/-- A reset goes back to that least. -/
theorem reset (h : b.Within bound) (hMin : MIN_RS_NUM ≤ bound) : b.reset.Within bound where
  respondStep := h.respondStep
  step_le := by
    show MMAX_RESPOND_STEP ≤ MIN_RS_NUM
    decide
  new_le := BitVec.le_refl _
  quota_le := hMin
  inuse_le := h.inuse_le

/-- A message whose quota is within the bound, and not below the step. -/
theorem message (h : b.Within bound) {quota : ULong} (version : Int)
    (hStep : MMAX_RESPOND_STEP ≤ quota) (hQuota : quota ≤ bound) :
    (b.checkUpdateTotalVersion quota version).1.Within bound := by
  have hRange := h.inRange (.message quota version)
  have hNew : (b.checkUpdateTotalVersion quota version).1.tokenQuotaNew ≤
      (b.checkUpdateTotalVersion quota version).1.tokenQuota :=
    apply_new_le h.new_le (.message quota version)
  rcases b.checkUpdateTotalVersion_cases quota version with
    ⟨-, e⟩ | ⟨-, e⟩ | ⟨-, -, e⟩ | ⟨hv, hq, e⟩ | ⟨-, -, e⟩ <;> rw [e] at hNew ⊢
  · exact h
  · exact h
  · exact { h with step_le := hStep, new_le := hNew, quota_le := hQuota }
  · have hDown := stepDown_le hq (hRange hv hq)
    exact { h with
      step_le := hStep
      new_le := hNew
      quota_le := BitVec.le_trans hDown h.quota_le }
  · exact { h with }

/-- What is granted fits into the quota. -/
theorem alloc (h : b.Within bound) (cost : ULong) :
    (b.tryAllocFromDesc cost).1.Within bound := by
  have hNew : (b.tryAllocFromDesc cost).1.tokenQuotaNew ≤ (b.tryAllocFromDesc cost).1.tokenQuota :=
    apply_new_le h.new_le (.alloc cost)
  rcases b.tryAllocFromDesc_cases cost with ⟨hFit, e⟩ | ⟨-, e⟩ <;> rw [e] at hNew ⊢
  · have hQuota := BitVec.le_trans (charge_quota_le (h.inRange (.alloc cost))) h.quota_le
    have hInuse := chargeSection_tokenInuse hFit
    have hFrame := b.chargeSection_frame cost
    have hBound := h.quota_le
    refine ⟨?_, ?_, hNew, hQuota, ?_⟩
    · rw [hFrame]
      exact h.respondStep
    · rw [chargeSection_tokenQuotaNew]
      exact h.step_le
    · unfold Fits at hFit
      rw [hInuse]
      bv_omega
  · exact h

/-- What is in use goes back. -/
theorem free (h : b.Within bound) {cost : ULong} (hCost : cost ≤ b.tokenInuse) :
    (b.freeToDesc cost).Within bound := by
  have hInuse := h.inuse_le
  refine { h with inuse_le := ?_ }
  rw [freeToDesc_tokenInuse]
  bv_omega

/-- A message within the bound leaves the quota there, also where it steps down. -/
theorem rcvd (h : b.Within bound) {dta : Dispatch2App} (hMin : MIN_RS_NUM ≤ bound)
    (hStep : MMAX_RESPOND_STEP ≤ dta.tokenQuota) (hQuota : dta.tokenQuota ≤ bound) :
    (b.rcvd dta).Within bound := by
  have hMessage := h.message dta.version hStep hQuota
  unfold DispatchBaseNode.rcvd
  split <;> rename_i heq <;> rw [heq] at hMessage
  · exact hMessage.reset hMin
  · exact hMessage

end Within

end DispatchBaseNode

-- ---------------------------------------------------------------------------
-- The dispatcher
-- ---------------------------------------------------------------------------

/-- A node that is guaranteed `minUnits` has and is promised at least these, from
the moment it is online. -/
structure AppNodeState.Guaranteed (minUnits : ULong) (s : AppNodeState) : Prop where
  limit   : s.node.limit = ⟨minUnits, 0⟩
  offline : ¬ s.isOnline → s.node.tokenQuota = 0
  online  : s.isOnline → minUnits ≤ s.node.tokenQuota ∧ minUnits ≤ s.node.tokenQuotaNew

/-- A call in turn keeps the guarantee, and takes nothing from the node. -/
theorem AppNodeState.Guaranteed.call {minUnits : ULong} {s s' : AppNodeState} {call : AppNodeCall}
    (h : s.Guaranteed minUnits) (hTurn : call.InTurn s) (hStep : appNodeSystem.step s call s') :
    s'.Guaranteed minUnits ∧ s.node.tokenQuota ≤ s'.node.tokenQuota ∧
      s.node.version ≤ s'.node.version ∧ (s.isOnline → s'.isOnline) := by
  obtain ⟨hApply, hOnline⟩ := hStep
  obtain ⟨hVersion, -⟩ := announcement_kept_iff hApply
  have hStays : s.isOnline → s'.isOnline := fun hOn => hOnline.mpr (Or.inl hOn)
  suffices hNode : s'.Guaranteed minUnits ∧ s.node.tokenQuota ≤ s'.node.tokenQuota from
    ⟨hNode.1, hNode.2, hVersion, hStays⟩
  -- a node that was online, keeps its limit, and has and is promised enough
  have hKept : s.isOnline → s'.node.limit = s.node.limit →
      s.node.tokenQuota ≤ s'.node.tokenQuota → minUnits ≤ s'.node.tokenQuotaNew →
      s'.Guaranteed minUnits ∧ s.node.tokenQuota ≤ s'.node.tokenQuota := by
    intro hOn hLimit hQuota hNew
    refine ⟨⟨hLimit.trans h.limit, fun hOff => absurd (hStays hOn) hOff, fun _ => ⟨?_, hNew⟩⟩,
      hQuota⟩
    exact BitVec.le_trans (h.online hOn).1 hQuota
  cases call with
  | online tokens =>
    obtain ⟨hOff, hMin⟩ := hTurn
    obtain ⟨⟨tokens', node₁, err⟩, hUp, heq⟩ := Option.map_eq_some_iff.mp hApply
    obtain rfl : node₁ = s'.node := heq
    rcases TokenGlobal.online_cases hUp with ⟨hNot, -, -, hSame⟩ | ⟨hOk, -, hSame, -⟩
    · have hStill : ¬ s'.isOnline := by
        intro hOn
        rcases hOnline.mp hOn with hOn | hAdmits
        · exact hOff hOn
        · rw [show tokens.checkUpAppNum.2 = .ok from hAdmits] at hNot
          cases hNot
      rw [hSame]
      refine ⟨⟨by rw [hSame]; exact h.limit, fun _ => by rw [hSame]; exact h.offline hOff,
        fun hOn => absurd hOn hStill⟩, BitVec.le_refl _⟩
    · have hUnits : tokens.defaultTokenMin = minUnits := by
        rw [hMin, h.limit]
      have hNow : s'.isOnline := hOnline.mpr (Or.inr hOk)
      refine ⟨⟨by rw [hSame]; exact h.limit, fun hNot => absurd hNow hNot, fun _ => ?_⟩, ?_⟩
      · rw [hSame, hUnits]
        exact ⟨BitVec.le_refl _, BitVec.le_refl _⟩
      · rw [h.offline hOff, BitVec.le_def]
        exact Nat.zero_le _
  | updateTokenQuotaNew quota =>
    obtain ⟨⟨node₁, pri, quota'⟩, hSet, heq⟩ := Option.map_eq_some_iff.mp hApply
    obtain rfl : node₁ = s'.node := heq
    obtain ⟨-, -, hMin, version, hSame⟩ := AppNode.updateTokenQuotaNew_eq hSet
    rw [h.limit] at hMin
    refine hKept hTurn (by rw [hSame]) (by rw [hSame]; exact BitVec.le_refl _) ?_
    rw [hSame]
    exact hMin
  | updateTokenQuota =>
    have hSame : s.node = s'.node := Option.some.inj hApply
    exact hKept hTurn (by rw [hSame]) (by rw [hSame]; exact BitVec.le_refl _)
      (by rw [← hSame]; exact (h.online hTurn).2)
  | rcvd a2d =>
    have hSame : (s.node.rcvd a2d 0).1 = s'.node := Option.some.inj hApply
    have hNew := (h.online hTurn).2
    rw [← hSame] at hKept ⊢
    rcases s.node.rcvd_cases a2d 0 with ⟨⟨press, heq⟩, -⟩ | ⟨-, hRaise, heq⟩ <;> rw [heq] at hKept ⊢
    · exact hKept hTurn rfl (BitVec.le_refl _) hNew
    · exact hKept hTurn rfl (BitVec.le_of_lt hRaise) hNew
  | alloc cost =>
    have hSame : (s.node.dtnAlloc cost 0).1 = s'.node := Option.some.inj hApply
    have hNew := (h.online hTurn).2
    unfold AppNode.dtnAlloc at hSame
    split at hSame <;> rw [← hSame] at hKept ⊢
    · exact hKept hTurn rfl (BitVec.le_refl _) hNew
    · exact hKept hTurn rfl (BitVec.le_refl _) hNew
  | free cost fenceId =>
    have hSame : s.node.dtnFree cost fenceId = some s'.node := hApply
    have hNew := (h.online hTurn).2
    unfold AppNode.dtnFree at hSame
    split at hSame
    · rw [← Option.some.inj hSame] at hKept ⊢
      exact hKept hTurn rfl (BitVec.le_refl _) hNew
    · split at hSame
      · rw [← Option.some.inj hSame] at hKept ⊢
        exact hKept hTurn rfl (BitVec.le_refl _) hNew
      · cases hSame

-- ---------------------------------------------------------------------------
-- Both together
-- ---------------------------------------------------------------------------

/-- The requests of the app that were granted and are not freed, as the calls of
a run tell. A new base node starts with none. -/
def usedAfter (used : ℤ) (x : ConnectionTransition τ) : ℤ :=
  match x.act with
  | .app (.alloc cost) => if x.pre.base.Fits cost then used + cost.toNat else used
  | .app (.free cost) => used - cost.toNat
  | .missed _ => 0
  | .reconnect => 0
  | _ => used

/-- What the app was granted along a run and has not freed. -/
def usedIn (tr : List (ConnectionTransition τ)) : ℤ := tr.foldl usedAfter 0

theorem usedIn_snoc (tr : List (ConnectionTransition τ)) (x : ConnectionTransition τ) :
    usedIn (tr ++ [x]) = usedAfter (usedIn tr) x := by
  simp [usedIn, List.foldl_append]

/-- The dispatcher announces something between the guarantee and what it holds. -/
theorem AppNodeState.Guaranteed.announcement {minUnits : ULong} {s : AppNodeState}
    (h : s.Guaranteed minUnits) (hOnline : s.isOnline) :
    minUnits ≤ s.node.getProtocol.tokenQuota ∧
      s.node.getProtocol.tokenQuota ≤ s.node.tokenQuota := by
  refine ⟨?_, ULong.cmin_le_right _ _⟩
  obtain ⟨hQuota, hNew⟩ := h.online hOnline
  unfold AppNode.getProtocol ULong.cmin
  split
  · exact hNew
  · exact hQuota

namespace Connection

variable {N : Network τ Dispatch2App} {minUnits : ULong} {s s' : Connection τ}

/-- A call on the node of the dispatcher, over any network. -/
theorem step_dispatcher {call : AppNodeCall} {disp : AppNodeState} (hTurn : call.InTurn s.disp)
    (hCall : appNodeSystem.step s.disp call disp) :
    (connectionSystem N minUnits).step s (.dispatcher call) { s with disp := disp } :=
  ⟨hTurn, hCall, rfl, rfl⟩

/-- Nothing is newer than what the dispatcher has. -/
structure Versioned (N : Network τ Dispatch2App) (minUnits : ULong) (s : Connection τ) : Prop where
  disp     : s.disp.Guaranteed minUnits
  version  : s.base.version ≤ s.disp.node.version ∧ 0 ≤ s.disp.node.version
  new_le   : s.base.tokenQuotaNew ≤ s.base.tokenQuota
  messages : N.AllInFlight s.net fun x => x.version ≤ s.disp.node.version

/-- With an app that overflows no sum, what it uses is within what is held for it,
and so is what is on its way to it. -/
structure Inv (N : Network τ Dispatch2App) (minUnits : ULong) (s : Connection τ) : Prop
    extends s.Versioned N minUnits where
  base     : s.base.Within s.held
  quotas   : N.AllInFlight s.net fun x => MMAX_RESPOND_STEP ≤ x.tokenQuota ∧ x.tokenQuota ≤ s.held

theorem min_le_held (s : Connection τ) : MIN_RS_NUM ≤ s.held := ULong.left_le_cmax _ _

theorem quota_le_held (s : Connection τ) : s.disp.node.tokenQuota ≤ s.held :=
  ULong.right_le_cmax _ _

/-- More is held where the quota of the node rose. -/
theorem held_mono (h : s.disp.node.tokenQuota ≤ s'.disp.node.tokenQuota) : s.held ≤ s'.held :=
  ULong.cmax_le s'.min_le_held (BitVec.le_trans h s'.quota_le_held)

theorem held_congr (h : s'.disp = s.disp) : s'.held = s.held := by
  unfold held
  rw [h]

/-- Nothing was announced yet. -/
theorem versioned_init (h : (connectionSystem N minUnits).init s) : s.Versioned N minUnits := by
  obtain ⟨ptr, fenceId, rfl⟩ := h
  exact {
    disp     := ⟨rfl, fun _ => rfl, False.elim⟩
    version  := ⟨Int.le_refl _, Int.le_refl _⟩
    new_le   := BitVec.le_refl _
    messages := .empty N _ }

/-- Nothing was announced or taken yet. -/
theorem inv_init (h : (connectionSystem N minUnits).init s) : s.Inv N minUnits := by
  have hVersioned := versioned_init h
  obtain ⟨ptr, fenceId, rfl⟩ := h
  exact { hVersioned with base := .init (min_le_held _), quotas := .empty N _ }

/-- What a message does to the version of the app. -/
theorem rcvd_version (b : DispatchBaseNode) (dta : Dispatch2App) :
    (dta.version < b.version ∧ (b.rcvd dta).version = 0) ∨
      (b.version ≤ dta.version ∧ (b.rcvd dta).version = dta.version) := by
  unfold DispatchBaseNode.rcvd
  rcases b.checkUpdateTotalVersion_cases dta.tokenQuota dta.version with
    ⟨hv, e⟩ | ⟨hv, e⟩ | ⟨hv, -, e⟩ | ⟨hv, -, e⟩ | ⟨hv, -, e⟩ <;> rw [e]
  · exact Or.inl ⟨hv, rfl⟩
  · exact Or.inr ⟨by omega, hv.symm⟩
  all_goals exact Or.inr ⟨by omega, rfl⟩

/-- The target stays below the quota, whatever the message says. -/
theorem rcvd_new_le {b : DispatchBaseNode} (h : b.tokenQuotaNew ≤ b.tokenQuota)
    (dta : Dispatch2App) : (b.rcvd dta).tokenQuotaNew ≤ (b.rcvd dta).tokenQuota := by
  have hMessage : (b.checkUpdateTotalVersion dta.tokenQuota dta.version).1.tokenQuotaNew ≤
      (b.checkUpdateTotalVersion dta.tokenQuota dta.version).1.tokenQuota :=
    b.apply_new_le h (.message dta.tokenQuota dta.version)
  unfold DispatchBaseNode.rcvd
  split <;> rename_i heq <;> rw [heq] at hMessage
  · exact BitVec.le_refl _
  · exact hMessage

/-- What the app calls by itself leaves it its version, or takes it back to the
first. -/
theorem own_version (b : DispatchBaseNode) {op : BaseOp} (hOwn : op.IsOwn) :
    (b.apply op).version = b.version ∨ (b.apply op).version = 0 := by
  cases op with
  | message quota version => exact hOwn.elim
  | alloc cost => exact Or.inl (b.tryAllocFromDesc_version cost)
  | free cost => exact Or.inl rfl
  | reset => exact Or.inr rfl

/-- **Step lemma**, for the versions: whatever the app does, also where its sums
overflow. -/
theorem Versioned.step {a : ConnectionAct} (h : s.Versioned N minUnits)
    (hStep : (connectionSystem N minUnits).step s a s') : s'.Versioned N minUnits := by
  obtain ⟨hVersion, hPos⟩ := h.version
  cases a with
  | dispatcher call =>
    obtain ⟨hTurn, hCall, hBase, hNet⟩ := hStep
    obtain ⟨hDisp, -, hNewer, -⟩ := h.disp.call hTurn hCall
    refine ⟨hDisp, ?_, ?_, ?_⟩
    · rw [hBase]
      omega
    · rw [hBase]
      exact h.new_le
    · rw [hNet]
      exact h.messages.mono fun x hx => Int.le_trans hx hNewer
  | announce =>
    obtain ⟨-, hSend, hDisp, hBase⟩ := hStep
    refine ⟨by rw [hDisp]; exact h.disp, by rw [hBase, hDisp]; exact h.version,
      by rw [hBase]; exact h.new_le, ?_⟩
    rw [hDisp]
    exact h.messages.send (Int.le_refl _) hSend
  | deliver dta =>
    obtain ⟨hDeliver, hBase, hDisp⟩ := hStep
    obtain ⟨hOld, hLeft⟩ := h.messages.deliver hDeliver
    refine ⟨by rw [hDisp]; exact h.disp, ?_, ?_, by rw [hDisp]; exact hLeft⟩
    · rw [hBase, hDisp]
      rcases rcvd_version s.base dta with ⟨-, hv⟩ | ⟨-, hv⟩ <;> omega
    · rw [hBase]
      exact rcvd_new_le h.new_le dta
  | missed dta =>
    obtain ⟨hDeliver, hBase, hDisp⟩ := hStep
    refine ⟨by rw [hDisp]; exact h.disp, ?_, ?_, ?_⟩
    · rw [hBase, hDisp]
      exact ⟨hPos, hPos⟩
    · rw [hBase]
      exact BitVec.le_refl _
    · rw [hDisp]
      exact (h.messages.deliver hDeliver).2
  | app op =>
    obtain ⟨hOwn, rfl⟩ := hStep
    refine ⟨h.disp, ⟨?_, hPos⟩, s.base.apply_new_le h.new_le op, h.messages⟩
    show (s.base.apply op).version ≤ s.disp.node.version
    rcases own_version s.base hOwn with hv | hv <;> omega
  | reconnect =>
    obtain rfl : s' = { s with base := .init } := hStep
    exact ⟨h.disp, ⟨hPos, hPos⟩, BitVec.le_refl _, h.messages⟩

/-- **Step lemma.** -/
theorem Inv.step {a : ConnectionAct} (h : s.Inv N minUnits) (hMin : MMAX_RESPOND_STEP ≤ minUnits)
    (hStep : (connectionSystem N minUnits).step s a s')
    (hUsed : ConnectionTransition.WellUsed ⟨s, a, s'⟩) : s'.Inv N minUnits := by
  have hVersioned := h.toVersioned.step hStep
  refine { hVersioned with base := ?_, quotas := ?_ }
  · cases a with
    | dispatcher call =>
      obtain ⟨hTurn, hCall, hBase, -⟩ := hStep
      rw [hBase]
      exact h.base.mono (held_mono (h.disp.call hTurn hCall).2.1)
    | announce =>
      obtain ⟨-, -, hDisp, hBase⟩ := hStep
      rw [hBase, held_congr hDisp]
      exact h.base
    | deliver dta =>
      obtain ⟨hDeliver, hBase, hDisp⟩ := hStep
      obtain ⟨⟨hLow, hHigh⟩, -⟩ := h.quotas.deliver hDeliver
      rw [hBase, held_congr hDisp]
      exact h.base.rcvd s.min_le_held hLow hHigh
    | missed dta =>
      rw [hStep.2.1]
      exact .init (min_le_held _)
    | app op =>
      obtain ⟨hOwn, rfl⟩ := hStep
      cases op with
      | message quota version => exact hOwn.elim
      | alloc cost => exact h.base.alloc cost
      | free cost => exact h.base.free hUsed
      | reset => exact h.base.reset s.min_le_held
    | reconnect =>
      obtain rfl : s' = { s with base := .init } := hStep
      exact .init s.min_le_held
  · cases a with
    | dispatcher call =>
      obtain ⟨hTurn, hCall, -, hNet⟩ := hStep
      have hHeld := held_mono (h.disp.call hTurn hCall).2.1
      rw [hNet]
      exact h.quotas.mono fun x hx => ⟨hx.1, BitVec.le_trans hx.2 hHeld⟩
    | announce =>
      obtain ⟨hOnline, hSend, hDisp, -⟩ := hStep
      obtain ⟨hLow, hHigh⟩ := h.disp.announcement hOnline
      rw [held_congr hDisp]
      refine h.quotas.send ⟨?_, ?_⟩ hSend
      · exact BitVec.le_trans hMin hLow
      · exact BitVec.le_trans hHigh s.quota_le_held
    | deliver dta =>
      obtain ⟨hDeliver, -, hDisp⟩ := hStep
      rw [held_congr hDisp]
      exact (h.quotas.deliver hDeliver).2
    | missed dta =>
      obtain ⟨hDeliver, -, hDisp⟩ := hStep
      rw [held_congr hDisp]
      exact (h.quotas.deliver hDeliver).2
    | app op =>
      obtain ⟨-, rfl⟩ := hStep
      exact h.quotas
    | reconnect =>
      obtain rfl : s' = { s with base := .init } := hStep
      exact h.quotas

/-- What the counter counts. -/
theorem used_step {a : ConnectionAct} {used : ℤ} (h : used = s.base.tokenInuse.toNat)
    (hStep : (connectionSystem N minUnits).step s a s')
    (hUsed : ConnectionTransition.WellUsed ⟨s, a, s'⟩) :
    usedAfter used ⟨s, a, s'⟩ = s'.base.tokenInuse.toNat := by
  cases a with
  | dispatcher call => rw [hStep.2.2.1]; exact h
  | announce => rw [hStep.2.2.2]; exact h
  | deliver dta =>
    have hSame : (s.base.rcvd dta).tokenInuse = s.base.tokenInuse := by
      have hKept := s.base.checkUpdateTotalVersion_tokenInuse dta.tokenQuota dta.version
      unfold DispatchBaseNode.rcvd
      split <;> rename_i heq <;> rw [heq] at hKept <;> exact hKept
    rw [hStep.2.1, hSame]
    exact h
  | missed dta =>
    rw [hStep.2.1]
    rfl
  | app op =>
    obtain ⟨hOwn, rfl⟩ := hStep
    cases op with
    | message quota version => exact hOwn.elim
    | alloc cost =>
      have hSum : s.base.tokenInuse.toNat + cost.toNat < 2 ^ 64 := hUsed
      show (if s.base.Fits cost then used + cost.toNat else used) =
        ((s.base.tryAllocFromDesc cost).1.tokenInuse.toNat : ℤ)
      rcases s.base.tryAllocFromDesc_cases cost with ⟨hFit, e⟩ | ⟨hFit, e⟩ <;> rw [e]
      · rw [if_pos hFit, DispatchBaseNode.chargeSection_tokenInuse hFit, BitVec.toNat_add,
          Nat.mod_eq_of_lt hSum, h]
        norm_cast
      · rw [if_neg hFit]
        exact h
    | free cost =>
      have hCost : cost ≤ s.base.tokenInuse := hUsed
      show used - cost.toNat = ((s.base.tokenInuse - cost).toNat : ℤ)
      rw [BitVec.toNat_sub_of_le hCost, h]
      have := BitVec.le_def.mp hCost
      omega
    | reset => exact h
  | reconnect =>
    obtain rfl : s' = { s with base := .init } := hStep
    rfl

/-- **Run lemma.** -/
theorem inv_of_run {s₀ : Connection τ} {tr : List (ConnectionTransition τ)}
    (hMin : MMAX_RESPOND_STEP ≤ minUnits) (hInit : (connectionSystem N minUnits).init s₀)
    (hRun : Run (connectionSystem N minUnits) s₀ tr s) (hUsed : ∀ x ∈ tr, x.WellUsed) :
    s.Inv N minUnits ∧ usedIn tr = s.base.tokenInuse.toNat := by
  induction hRun with
  | nil =>
    refine ⟨inv_init hInit, ?_⟩
    obtain ⟨ptr, fenceId, rfl⟩ := hInit
    rfl
  | snoc _ hStep ih =>
    obtain ⟨hInv, hCount⟩ := ih fun x hx => hUsed x (List.mem_append_left _ hx)
    have hLast := hUsed _ (List.mem_append_right _ (List.mem_singleton_self _))
    rw [usedIn_snoc]
    exact ⟨hInv.step hMin hStep hLast, used_step hCount hStep hLast⟩

/-- One app of minimum 10, over a queue. -/
abbrev queueSystem : System (Connection (List Dispatch2App)) ConnectionAct :=
  connectionSystem (Network.ordered _) 10

def apart : Connection (List Dispatch2App) := ⟨newApp, .init, []⟩

def joined : Connection (List Dispatch2App) := { apart with disp := onlineApp }

/-- The dispatcher promises 20 tokens, -/
def retargeted : Connection (List Dispatch2App) := { joined with disp := promised }

/-- takes them as confirmed, -/
def raised : Connection (List Dispatch2App) :=
  { retargeted with disp := ⟨{ promised.node with tokenQuota := 20 }, True⟩ }

/-- and announces them; -/
def announced : Connection (List Dispatch2App) := { raised with net := [⟨20, 1⟩] }

/-- the app is told, -/
def told : Connection (List Dispatch2App) :=
  { raised with
    base := { DispatchBaseNode.init with tokenQuota := 20, tokenQuotaNew := 20, version := 1 } }

/-- and takes 15. -/
def taken : Connection (List Dispatch2App) := { told with base.tokenInuse := 15 }

def beforeAnnouncement : List (ConnectionTransition (List Dispatch2App)) :=
  [⟨apart, .dispatcher (.online poolForOne), joined⟩,
    ⟨joined, .dispatcher (.updateTokenQuotaNew 20), retargeted⟩,
    ⟨retargeted, .dispatcher (.rcvd ⟨0, 1, 20⟩), raised⟩]

def afterAnnouncement : List (ConnectionTransition (List Dispatch2App)) :=
  [⟨announced, .deliver ⟨20, 1⟩, told⟩, ⟨told, .app (.alloc 15), taken⟩]

theorem step_raised : appNodeSystem.step promised (.rcvd ⟨0, 1, 20⟩) raised.disp :=
  ⟨by decide, iff_of_true trivial (Or.inl trivial)⟩

theorem run_beforeAnnouncement : Run queueSystem apart beforeAnnouncement raised := by
  have hOnline : queueSystem.step apart (.dispatcher (.online poolForOne)) joined :=
    step_dispatcher ⟨id, rfl⟩ step_onlineApp
  have hPromise : queueSystem.step joined (.dispatcher (.updateTokenQuotaNew 20)) retargeted :=
    step_dispatcher trivial step_promised
  have hConfirm : queueSystem.step retargeted (.dispatcher (.rcvd ⟨0, 1, 20⟩)) raised :=
    step_dispatcher trivial step_raised
  exact ((Run.nil.snoc hOnline).snoc hPromise).snoc hConfirm

theorem step_announce : queueSystem.step raised .announce announced :=
  ⟨trivial, Or.inl (by decide), rfl, rfl⟩

theorem run_afterAnnouncement : Run queueSystem announced afterAnnouncement taken := by
  have hDeliver : queueSystem.step announced (.deliver ⟨20, 1⟩) told := ⟨rfl, by decide, rfl⟩
  have hAlloc : queueSystem.step told (.app (.alloc 15)) taken := ⟨trivial, rfl⟩
  exact (Run.nil.snoc hDeliver).snoc hAlloc

def wholeRun : List (ConnectionTransition (List Dispatch2App)) :=
  beforeAnnouncement ++ [⟨raised, .announce, announced⟩] ++ afterAnnouncement

theorem run_wholeRun : Run queueSystem apart wholeRun taken :=
  (run_beforeAnnouncement.snoc step_announce).append run_afterAnnouncement

end Connection

end DatastorQos
