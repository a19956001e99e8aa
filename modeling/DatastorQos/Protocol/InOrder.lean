import DatastorQos.Protocol.Connection

/-!
# datastor_qos — agreement of an app with its dispatcher

The version of a quota message only ever means something together with the order
in which the messages arrive.

* `target_within_announced` — over any network: an app that has the version the
  dispatcher has now aims at no more than what it announces now;
* `no_reset_in_order` — over a network that neither copies nor overtakes, no
  message is older than what the app has, so none makes it reset;
* `agrees_when_drained` — once the messages up to an announcement of the current
  version are through, the app has that version.
-/

namespace DatastorQos

open Runs Network

variable {τ : Type*}

namespace AppNode

/-- Under one version the announced quota does not fall. -/
theorem announcement_mono {s s' : AppNodeState} {minUnits : ULong} {call : AppNodeCall}
    (h : s.Guaranteed minUnits) (hTurn : call.InTurn s) (hStep : appNodeSystem.step s call s')
    (hSame : s'.node.version = s.node.version) :
    s.node.getProtocol.tokenQuota ≤ s'.node.getProtocol.tokenQuota := by
  obtain ⟨hApply, -⟩ := hStep
  by_cases hKeeps : KeepsAnnouncement s.node call
  · rw [(announcement_kept_iff hApply).2.mpr hKeeps hSame]
    exact BitVec.le_refl _
  · cases call with
    | online tokens =>
      -- there was nothing to announce
      have hZero : s.node.getProtocol.tokenQuota ≤ s.node.tokenQuota := ULong.cmin_le_right _ _
      rw [h.offline hTurn.1] at hZero
      exact BitVec.le_trans hZero (BitVec.le_def.mpr (Nat.zero_le _))
    | rcvd a2d =>
      obtain heq : (s.node.rcvd a2d 0).1 = s'.node := Option.some.inj hApply
      rw [← heq]
      rcases s.node.rcvd_cases a2d 0 with ⟨⟨press, e⟩, -⟩ | ⟨-, hRaise, e⟩ <;> rw [e]
      · exact BitVec.le_refl _
      · -- the smaller of the promise and a quota that rose
        simp only [getProtocol]
        generalize ULong.cmin a2d.tokenInUse s.node.tokenQuotaNew = confirmed at *
        unfold ULong.cmin
        split <;> split <;> bv_omega
    | updateTokenQuotaNew _ => exact absurd trivial hKeeps
    | updateTokenQuota => exact absurd trivial hKeeps
    | alloc _ => exact absurd trivial hKeeps
    | free _ _ => exact absurd trivial hKeeps

end AppNode

namespace Connection

-- ---------------------------------------------------------------------------
-- Any network
-- ---------------------------------------------------------------------------

section AnyNetwork

variable {N : Network τ Dispatch2App} {minUnits : ULong} {s s' : Connection τ}

/-- What was sent under the current version is no more than what is announced
now, and neither is the target of an app that has that version. -/
structure OnTarget (N : Network τ Dispatch2App) (s : Connection τ) : Prop where
  base     : s.base.version = s.disp.node.version → 0 < s.disp.node.version →
    s.base.tokenQuotaNew ≤ s.disp.node.getProtocol.tokenQuota
  messages : N.AllInFlight s.net fun x => x.version = s.disp.node.version →
    x.tokenQuota ≤ s.disp.node.getProtocol.tokenQuota

/-- A newer message leaves the target within its quota. -/
theorem rcvd_target {b : DispatchBaseNode} {dta : Dispatch2App}
    (hNew : b.tokenQuotaNew ≤ b.tokenQuota) (hNewer : b.version < dta.version) :
    (b.rcvd dta).tokenQuotaNew ≤ dta.tokenQuota := by
  unfold DispatchBaseNode.rcvd
  rcases b.checkUpdateTotalVersion_cases dta.tokenQuota dta.version with
    ⟨hv, -⟩ | ⟨hv, -⟩ | ⟨-, -, e⟩ | ⟨-, -, e⟩ | ⟨-, hq, e⟩
  · omega
  · omega
  · rw [e]
    exact BitVec.le_refl _
  · rw [e]
    exact BitVec.le_refl _
  · rw [e, hq]
    exact hNew

theorem rcvd_same {b : DispatchBaseNode} {dta : Dispatch2App} (hSame : b.version = dta.version) :
    b.rcvd dta = b := by
  unfold DispatchBaseNode.rcvd
  rcases b.checkUpdateTotalVersion_cases dta.tokenQuota dta.version with
    ⟨hv, -⟩ | ⟨-, e⟩ | ⟨hv, -⟩ | ⟨hv, -⟩ | ⟨hv, -⟩
  · omega
  · rw [e]
  all_goals omega

theorem OnTarget.step {a : ConnectionAct} (h : s.OnTarget N) (hNow : s.Versioned N minUnits)
    (hStep : (connectionSystem N minUnits).step s a s') : s'.OnTarget N := by
  obtain ⟨hVersion, hPos⟩ := hNow.version
  cases a with
  | dispatcher call =>
    obtain ⟨hTurn, hCall, hBase, hNet⟩ := hStep
    obtain ⟨-, -, hNewer, -⟩ := hNow.disp.call hTurn hCall
    by_cases hSame : s'.disp.node.version = s.disp.node.version
    · have hMono := AppNode.announcement_mono hNow.disp hTurn hCall hSame
      refine ⟨fun hHas hLate => ?_, ?_⟩
      · rw [hBase] at hHas ⊢
        exact BitVec.le_trans (h.base (by omega) (by omega)) hMono
      · rw [hNet]
        exact h.messages.mono fun x hx hHas => BitVec.le_trans (hx (by omega)) hMono
    · -- nobody has the new version yet
      refine ⟨fun hHas _ => ?_, ?_⟩
      · rw [hBase] at hHas
        omega
      · rw [hNet]
        exact hNow.messages.mono fun x hx hHas => by omega
  | announce =>
    obtain ⟨hOnline, hSend, hDisp, hBase⟩ := hStep
    refine ⟨by rw [hBase, hDisp]; exact h.base, ?_⟩
    rw [hDisp]
    exact h.messages.send (fun _ => BitVec.le_refl _) hSend
  | deliver dta =>
    obtain ⟨hDeliver, hBase, hDisp⟩ := hStep
    obtain ⟨hQuota, hLeft⟩ := h.messages.deliver hDeliver
    refine ⟨fun hHas hLate => ?_, by rw [hDisp]; exact hLeft⟩
    rw [hBase, hDisp] at hHas
    rw [hDisp] at hLate ⊢
    rw [hBase]
    rcases rcvd_version s.base dta with ⟨-, hv⟩ | ⟨hLe, hv⟩
    · omega
    · rcases Int.lt_or_eq_of_le hLe with hNewer | hSame
      · exact BitVec.le_trans (rcvd_target hNow.new_le hNewer) (hQuota (by omega))
      · rw [rcvd_same hSame]
        exact h.base (by omega) hLate
  | missed dta =>
    obtain ⟨hDeliver, hBase, hDisp⟩ := hStep
    refine ⟨fun hHas hLate => ?_, by rw [hDisp]; exact (h.messages.deliver hDeliver).2⟩
    rw [hBase, hDisp] at hHas
    rw [hDisp] at hLate
    have hZero : (0 : ℤ) = s.disp.node.version := hHas
    omega
  | app op =>
    obtain ⟨hOwn, rfl⟩ := hStep
    refine ⟨fun hHas hLate => ?_, h.messages⟩
    simp only at hHas hLate ⊢
    cases op with
    | message quota version => exact hOwn.elim
    | alloc cost =>
      show (s.base.tryAllocFromDesc cost).1.tokenQuotaNew ≤ _
      rw [s.base.tryAllocFromDesc_tokenQuotaNew]
      exact h.base ((s.base.tryAllocFromDesc_version cost).symm.trans hHas) hLate
    | free cost => exact h.base hHas hLate
    | reset =>
      have hZero : (0 : ℤ) = s.disp.node.version := hHas
      omega
  | reconnect =>
    obtain rfl : s' = { s with base := .init } := hStep
    refine ⟨fun hHas hLate => ?_, h.messages⟩
    have hZero : (0 : ℤ) = s.disp.node.version := hHas
    simp only at hLate
    omega

theorem onTarget_of_run {s₀ : Connection τ} {tr : List (ConnectionTransition τ)}
    (hInit : (connectionSystem N minUnits).init s₀)
    (hRun : Run (connectionSystem N minUnits) s₀ tr s) :
    s.Versioned N minUnits ∧ s.OnTarget N := by
  refine hRun.invariant (I := fun s => s.Versioned N minUnits ∧ s.OnTarget N)
    (fun _ _ _ h hStep => ⟨h.1.step hStep, h.2.step h.1 hStep⟩) ⟨versioned_init hInit, ?_⟩
  obtain ⟨ptr, fenceId, rfl⟩ := hInit
  exact ⟨fun _ hLate => absurd hLate (Int.lt_irrefl _), .empty N _⟩

/-- **An app that is up to date aims at no more than what is announced**, whatever
the network does to the messages, and whatever the app allocates and frees. -/
theorem target_within_announced {s₀ : Connection τ} {tr : List (ConnectionTransition τ)}
    (hInit : (connectionSystem N minUnits).init s₀)
    (hRun : Run (connectionSystem N minUnits) s₀ tr s)
    (hHas : s.base.version = s.disp.node.version) (hLate : 0 < s.disp.node.version) :
    s.base.tokenQuotaNew ≤ s.disp.node.getProtocol.tokenQuota :=
  (onTarget_of_run hInit hRun).2.base hHas hLate

section Repeated

/-- One app of minimum 10, over a network that reorders and repeats. -/
abbrev looseSystem : System (Connection (List Dispatch2App)) ConnectionAct :=
  connectionSystem (unordered _) 10

/-- The minimum was announced at once, and 20 tokens later. -/
def sentTwo : Connection (List Dispatch2App) := { raised with net := [⟨20, 1⟩, ⟨10, 0⟩] }

/-- The app hears of the 20 tokens first, and takes 15 of them; -/
def takenEarly : Connection (List Dispatch2App) := { taken with net := sentTwo.net }

/-- the minimum comes late, and makes it reset; -/
def toldLate : Connection (List Dispatch2App) :=
  { takenEarly with base := takenEarly.base.rcvd ⟨10, 0⟩ }

/-- the 20 tokens come once more. -/
def toldAgain : Connection (List Dispatch2App) :=
  { toldLate with base := toldLate.base.rcvd ⟨20, 1⟩ }

theorem run_toldAgain : ∃ tr, Run looseSystem apart tr toldAgain := by
  have hOnline : looseSystem.step apart (.dispatcher (.online poolForOne)) joined :=
    step_dispatcher ⟨id, rfl⟩ step_onlineApp
  have hMinimum : looseSystem.step joined .announce { joined with net := [⟨10, 0⟩] } :=
    ⟨trivial, rfl, rfl, rfl⟩
  have hPromise : looseSystem.step { joined with net := [⟨10, 0⟩] }
      (.dispatcher (.updateTokenQuotaNew 20)) { retargeted with net := [⟨10, 0⟩] } :=
    step_dispatcher trivial step_promised
  have hConfirm : looseSystem.step { retargeted with net := [⟨10, 0⟩] }
      (.dispatcher (.rcvd ⟨0, 1, 20⟩)) { raised with net := [⟨10, 0⟩] } :=
    step_dispatcher trivial step_raised
  have hTwenty : looseSystem.step { raised with net := [⟨10, 0⟩] } .announce sentTwo :=
    ⟨trivial, rfl, rfl, rfl⟩
  have hEarly : looseSystem.step sentTwo (.deliver ⟨20, 1⟩) { told with net := sentTwo.net } :=
    ⟨⟨List.mem_cons_self, rfl⟩, by decide, rfl⟩
  have hAlloc : looseSystem.step { told with net := sentTwo.net } (.app (.alloc 15)) takenEarly :=
    ⟨trivial, rfl⟩
  have hLate : looseSystem.step takenEarly (.deliver ⟨10, 0⟩) toldLate :=
    ⟨⟨List.mem_cons_of_mem _ List.mem_cons_self, rfl⟩, rfl, rfl⟩
  have hAgain : looseSystem.step toldLate (.deliver ⟨20, 1⟩) toldAgain :=
    ⟨⟨List.mem_cons_self, rfl⟩, rfl, rfl⟩
  have hSent := ((((Run.nil.snoc hOnline).snoc hMinimum).snoc hPromise).snoc hConfirm).snoc hTwenty
  exact ⟨_, (((hSent.snoc hEarly).snoc hAlloc).snoc hLate).snoc hAgain⟩

theorem target_within_announced_repeated : toldLate.base.version = 0 ∧
    toldAgain.base.tokenQuotaNew ≤ toldAgain.disp.node.getProtocol.tokenQuota := by
  obtain ⟨tr, hRun⟩ := run_toldAgain
  exact ⟨by decide, target_within_announced ⟨0, 0, rfl⟩ hRun (by decide) (by decide)⟩

end Repeated

end AnyNetwork

-- ---------------------------------------------------------------------------
-- A network that keeps the order
-- ---------------------------------------------------------------------------

section InOrder

variable {minUnits : ULong} {s₀ s s' : Connection (List Dispatch2App)}

/-- The queue leads from what the app has to what the dispatcher has. -/
structure InOrder (s : Connection (List Dispatch2App)) : Prop where
  sorted : Sorted Dispatch2App.version s.base.version s.disp.node.version s.net
  pos    : 0 ≤ s.base.version

theorem InOrder.step {a : ConnectionAct} (h : s.InOrder)
    (hStep : (connectionSystem (ordered _) minUnits).step s a s') : s'.InOrder := by
  have hPos := h.pos
  cases a with
  | dispatcher call =>
    obtain ⟨-, ⟨hApply, -⟩, hBase, hNet⟩ := hStep
    obtain ⟨hNewer, -⟩ := announcement_kept_iff hApply
    refine ⟨?_, by rw [hBase]; exact hPos⟩
    rw [hBase, hNet]
    exact h.sorted.widen (Int.le_refl _) hNewer
  | announce =>
    obtain ⟨-, hSend, hDisp, hBase⟩ := hStep
    refine ⟨?_, by rw [hBase]; exact hPos⟩
    rw [hBase, hDisp]
    exact h.sorted.send rfl hSend
  | deliver dta =>
    obtain ⟨hDeliver, hBase, hDisp⟩ := hStep
    obtain ⟨hLe, hSorted⟩ := h.sorted.deliver hDeliver
    have hv : s'.base.version = dta.version := by
      rw [hBase]
      rcases rcvd_version s.base dta with ⟨hOld, -⟩ | ⟨-, hv⟩
      · omega
      · exact hv
    refine ⟨?_, by omega⟩
    rw [hv, hDisp]
    exact hSorted
  | missed dta =>
    obtain ⟨hDeliver, hBase, hDisp⟩ := hStep
    obtain ⟨hLe, hSorted⟩ := h.sorted.deliver hDeliver
    refine ⟨?_, by rw [hBase]; exact Int.le_refl _⟩
    rw [hBase, hDisp]
    exact hSorted.widen (Int.le_trans hPos hLe) (Int.le_refl _)
  | app op =>
    obtain ⟨hOwn, rfl⟩ := hStep
    cases op with
    | message quota version => exact hOwn.elim
    | alloc cost =>
      have hv := s.base.tryAllocFromDesc_version cost
      refine ⟨?_, by show 0 ≤ (s.base.tryAllocFromDesc cost).1.version; omega⟩
      show Sorted _ (s.base.tryAllocFromDesc cost).1.version _ _
      rw [hv]
      exact h.sorted
    | free cost => exact ⟨h.sorted, hPos⟩
    | reset => exact ⟨h.sorted.widen hPos (Int.le_refl _), Int.le_refl _⟩
  | reconnect =>
    obtain rfl : s' = { s with base := .init } := hStep
    exact ⟨h.sorted.widen hPos (Int.le_refl _), Int.le_refl _⟩

theorem inOrder_of_run {tr : List (ConnectionTransition (List Dispatch2App))}
    (hInit : (connectionSystem (ordered _) minUnits).init s₀)
    (hRun : Run (connectionSystem (ordered _) minUnits) s₀ tr s) : s.InOrder := by
  refine hRun.invariant (fun _ _ _ h hStep => h.step hStep) ?_
  obtain ⟨ptr, fenceId, rfl⟩ := hInit
  exact ⟨.nil _ (Int.le_refl _), Int.le_refl _⟩

/-- **In order, no message makes an app reset**, also after it went offline and
came back, or was reset. -/
theorem no_reset_in_order {tr : List (ConnectionTransition (List Dispatch2App))}
    (hInit : (connectionSystem (ordered _) minUnits).init s₀)
    (hRun : Run (connectionSystem (ordered _) minUnits) s₀ tr s) :
    ∀ x ∈ tr, ∀ dta, x.act = .deliver dta →
      (x.pre.base.checkUpdateTotalVersion dta.tokenQuota dta.version).2.isReset = false := by
  have hStart : s₀.InOrder := inOrder_of_run hInit .nil
  refine hRun.forall_transition (I := InOrder) (fun t a u h hStep => ⟨h.step hStep, ?_⟩) hStart
  rintro dta rfl
  obtain ⟨hLe, -⟩ := h.sorted.deliver hStep.1
  rcases t.base.checkUpdateTotalVersion_cases dta.tokenQuota dta.version with
    ⟨hv, -⟩ | ⟨-, e⟩ | ⟨-, -, e⟩ | ⟨-, -, e⟩ | ⟨-, -, e⟩
  · omega
  all_goals rw [e]

theorem no_reset_in_order_told :
    (announced.base.checkUpdateTotalVersion 20 1).2.isReset = false :=
  no_reset_in_order ⟨0, 0, rfl⟩ run_wholeRun ⟨announced, .deliver ⟨20, 1⟩, told⟩
    (by simp [wholeRun, afterAnnouncement]) ⟨20, 1⟩ rfl

/-- The dispatcher makes no new version, and the app does not fall back and
misses no message. -/
def Quiet (x : ConnectionTransition (List Dispatch2App)) : Prop :=
  match x.act with
  | .dispatcher _ => x.post.disp.node.version = x.pre.disp.node.version
  | .missed _ => False
  | .app .reset => False
  | .reconnect => False
  | _ => True

/-- The app has the current version, or a message with it is on its way. -/
def Informed (s : Connection (List Dispatch2App)) : Prop :=
  s.base.version = s.disp.node.version ∨ ∃ m ∈ s.net, m.version = s.disp.node.version

theorem Informed.step {a : ConnectionAct} (h : s.Informed) (hOrder : s.InOrder)
    (hStep : (connectionSystem (ordered _) minUnits).step s a s')
    (hQuiet : Quiet ⟨s, a, s'⟩) : s'.Informed := by
  unfold Informed at h ⊢
  cases a with
  | dispatcher call =>
    obtain ⟨-, -, hBase, hNet⟩ := hStep
    rw [hBase, hNet, show s'.disp.node.version = s.disp.node.version from hQuiet]
    exact h
  | announce =>
    obtain ⟨-, hSend, hDisp, hBase⟩ := hStep
    rw [hBase, hDisp]
    refine h.imp_right ?_
    rintro ⟨m, hm, hv⟩
    obtain hNet | hNet := hSend <;> rw [hNet]
    · exact ⟨m, List.mem_append_left _ hm, hv⟩
    · exact ⟨m, hm, hv⟩
  | deliver dta =>
    obtain ⟨hDeliver, hBase, hDisp⟩ := hStep
    obtain ⟨hLe, hSorted⟩ := hOrder.sorted.deliver hDeliver
    have hNow := hSorted.low_le
    have hv : s'.base.version = dta.version := by
      rw [hBase]
      rcases rcvd_version s.base dta with ⟨hOld, -⟩ | ⟨-, hv⟩
      · omega
      · exact hv
    rw [hDisp]
    rcases h with hHas | ⟨m, hm, hmv⟩
    · left
      omega
    · -- it was this message, or it is still there
      rw [show s.net = dta :: s'.net from hDeliver] at hm
      rcases List.mem_cons.mp hm with rfl | hLeft
      · exact Or.inl (hv.trans hmv)
      · exact Or.inr ⟨m, hLeft, hmv⟩
  | missed dta => exact hQuiet.elim
  | app op =>
    obtain ⟨hOwn, rfl⟩ := hStep
    cases op with
    | message quota version => exact hOwn.elim
    | alloc cost => exact h.imp_left (s.base.tryAllocFromDesc_version cost).trans
    | free cost => exact h
    | reset => exact hQuiet.elim
  | reconnect => exact hQuiet.elim

/-- **Once the queue is drained the app agrees with its dispatcher.** An
announcement that the network takes, and no new version after it: when nothing is
in flight any more, the app has the version of the dispatcher. -/
theorem agrees_when_drained {s₁ s₂ : Connection (List Dispatch2App)}
    {tr₁ tr₂ : List (ConnectionTransition (List Dispatch2App))}
    (hInit : (connectionSystem (ordered _) minUnits).init s₀)
    (hBefore : Run (connectionSystem (ordered _) minUnits) s₀ tr₁ s₁)
    (hAnnounce : (connectionSystem (ordered _) minUnits).step s₁ .announce s₂)
    (hTaken : s₂.net = s₁.net ++ [s₁.disp.node.getProtocol])
    (hAfter : Run (connectionSystem (ordered _) minUnits) s₂ tr₂ s) (hQuiet : ∀ x ∈ tr₂, Quiet x)
    (hDrained : s.net = []) : s.base.version = s.disp.node.version := by
  have hOrder : s₂.InOrder := inOrder_of_run hInit (hBefore.snoc hAnnounce)
  have hInformed : s.Informed ∧ s.InOrder := by
    clear hDrained
    induction hAfter with
    | nil =>
      obtain ⟨-, -, hDisp, -⟩ := hAnnounce
      refine ⟨Or.inr ⟨s₁.disp.node.getProtocol, ?_, ?_⟩, hOrder⟩
      · rw [hTaken]
        exact List.mem_append_right _ (List.mem_singleton_self _)
      · rw [hDisp]
        rfl
    | snoc _ hStep ih =>
      obtain ⟨hInformed, hOrder⟩ := ih fun x hx => hQuiet x (List.mem_append_left _ hx)
      have hLast := hQuiet _ (List.mem_append_right _ (List.mem_singleton_self _))
      exact ⟨hInformed.step hOrder hStep hLast, hOrder.step hStep⟩
  rcases hInformed.1 with hHas | ⟨m, hm, -⟩
  · exact hHas
  · rw [hDrained] at hm
    exact absurd hm List.not_mem_nil

theorem agrees_when_drained_taken : taken.base.version = taken.disp.node.version :=
  agrees_when_drained ⟨0, 0, rfl⟩ run_beforeAnnouncement step_announce rfl run_afterAnnouncement
    (by simp [afterAnnouncement, Quiet]) rfl

end InOrder

end Connection

end DatastorQos
