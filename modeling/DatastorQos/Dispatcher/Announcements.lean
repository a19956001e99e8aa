import DatastorQos.Dispatcher.TokenGlobal
import DatastorQos.Lib.Runs

/-!
# datastor_qos — a version identifies the quota it announces

An app ignores a message of a version it has, so two messages of one version
have to announce the same quota. `get_protocol` announces the smaller of the two
quotas of a node, and only a change of `tokenQuotaNew` counts as a new version.

* `announcement_kept_iff` — one call changes the announced quota under the same
  version exactly in two cases: a confirmation raises the quota of the node, or
  a node that is online is brought online again;
* `version_identifies_iff` — over whole runs, the versions identify their
  quotas exactly if no call of the run is one of these;
* `confirmation_changes_quota` — a confirmation that raises the quota.
-/

namespace DatastorQos

open Runs

-- ---------------------------------------------------------------------------
-- Runs of one node
-- ---------------------------------------------------------------------------

/-- The calls on an app node. The tokens of the dispatcher may have changed since
the last one, so `online` brings those it finds. -/
inductive AppNodeCall where
  | online (tokens : TokenGlobal)
  | updateTokenQuotaNew (quota : ULong)
  | updateTokenQuota
  | rcvd (a2d : App2Dispatch)
  | alloc (cost : ULong)
  | free (cost fenceId : ULong)

/-- The node after a call that returns. `update_token_quota` writes no field of
it, whatever its callbacks do. -/
def AppNodeCall.apply (node : AppNode) : AppNodeCall → Option AppNode
  | .online tokens => (tokens.online node).map fun res => res.2.1
  | .updateTokenQuotaNew quota => (node.updateTokenQuotaNew quota () fun _ _ => ()).map (·.1)
  | .updateTokenQuota => some node
  | .rcvd a2d => some (node.rcvd a2d 0).1
  | .alloc cost => some (node.dtnAlloc cost 0).1
  | .free cost fenceId => node.dtnFree cost fenceId

/-- The call brings the node online. -/
def AppNodeCall.Admits : AppNodeCall → Prop
  | .online tokens => tokens.checkUpAppNum.2 = .ok
  | _ => False

/-- A node, and whether it is online. -/
structure AppNodeState where
  node     : AppNode
  isOnline : Prop

def appNodeSystem : System AppNodeState AppNodeCall where
  init s := ∃ ptr minUnits fenceId, s = ⟨.init ptr minUnits fenceId, False⟩
  step s call s' := call.apply s.node = some s'.node ∧ (s'.isOnline ↔ s.isOnline ∨ call.Admits)

abbrev AppNodeTransition := Transition AppNodeState AppNodeCall

-- ---------------------------------------------------------------------------
-- What one call announces
-- ---------------------------------------------------------------------------

/-- The call leaves the announced quota of an online node, or announces it as a
new version. -/
def KeepsAnnouncement (node : AppNode) : AppNodeCall → Prop
  -- the node is not let in, or is at its minimum
  | .online tokens => tokens.checkUpAppNum.2 = .ok →
      tokens.defaultTokenMin = node.getProtocol.tokenQuota
  -- the confirmation does not raise the quota
  | .rcvd a2d => a2d.version = node.version →
      ULong.cmin a2d.tokenInUse node.tokenQuotaNew ≤ node.tokenQuota
  | _ => True

variable {node node' : AppNode} {call : AppNodeCall}

/-- **One call**: versions only grow, and under one version the announced quota
changes exactly if the call does not keep it. -/
theorem announcement_kept_iff (h : call.apply node = some node') :
    node.version ≤ node'.version ∧
      ((node'.version = node.version → node'.getProtocol = node.getProtocol) ↔
        KeepsAnnouncement node call) := by
  cases call with
  | online tokens =>
    obtain ⟨⟨tokens', node₁, err⟩, hOnline, rfl⟩ := Option.map_eq_some_iff.mp h
    rcases TokenGlobal.online_cases hOnline with ⟨hNot, -, -, rfl⟩ | ⟨hOk, -, rfl, -⟩
    · simp [KeepsAnnouncement, hNot]
    · -- both quotas are the minimum now
      have hMin : ULong.cmin tokens.defaultTokenMin tokens.defaultTokenMin =
          tokens.defaultTokenMin := by
        unfold ULong.cmin
        split <;> rfl
      refine ⟨Int.le_refl _, ?_⟩
      simp only [KeepsAnnouncement, hOk, forall_const, AppNode.getProtocol, hMin,
        Dispatch2App.mk.injEq, and_true]
  | updateTokenQuotaNew quota =>
    obtain ⟨⟨node₁, pri, quota'⟩, hSet, rfl⟩ := Option.map_eq_some_iff.mp h
    simp only [KeepsAnnouncement, iff_true]
    rcases AppNode.updateTokenQuotaNew_version hSet with rfl | rfl
    · simp only
      exact ⟨by omega, fun hSame => by omega⟩
    · exact ⟨Int.le_refl _, fun _ => rfl⟩
  | updateTokenQuota =>
    obtain rfl := Option.some.inj h
    exact ⟨Int.le_refl _, ⟨fun _ => trivial, fun _ _ => rfl⟩⟩
  | rcvd a2d =>
    obtain rfl := Option.some.inj h
    simp only [KeepsAnnouncement]
    rcases node.rcvd_cases a2d 0 with ⟨⟨press, heq⟩, hKeeps⟩ | ⟨hVersion, hRaise, heq⟩
    · rw [heq]
      exact ⟨Int.le_refl _, ⟨fun _ => hKeeps, fun _ _ => rfl⟩⟩
    · -- the node announced what it had, and announces what it has now
      rw [heq]
      have hLe := ULong.cmin_le_right a2d.tokenInUse node.tokenQuotaNew
      refine ⟨Int.le_refl _, fun hSame => ?_, fun hKeeps => ?_⟩
      · have hQuota := congrArg Dispatch2App.tokenQuota (hSame rfl)
        simp only [AppNode.getProtocol] at hQuota
        generalize ULong.cmin a2d.tokenInUse node.tokenQuotaNew = confirmed at *
        unfold ULong.cmin at hQuota
        split at hQuota <;> split at hQuota <;> bv_omega
      · have := hKeeps hVersion
        bv_omega
  | alloc cost =>
    obtain rfl := Option.some.inj h
    unfold AppNode.dtnAlloc
    split <;> exact ⟨Int.le_refl _, ⟨fun _ => trivial, fun _ _ => rfl⟩⟩
  | free cost fenceId =>
    have hFree : ∃ inuse, node' = { node with tokenInuse := inuse } := by
      simp only [AppNodeCall.apply, AppNode.dtnFree] at h
      split at h
      · exact ⟨node.tokenInuse, (Option.some.inj h).symm⟩
      · split at h
        · exact ⟨_, (Option.some.inj h).symm⟩
        · cases h
    obtain ⟨inuse, rfl⟩ := hFree
    exact ⟨Int.le_refl _, ⟨fun _ => trivial, fun _ _ => rfl⟩⟩

-- ---------------------------------------------------------------------------
-- Whole runs
-- ---------------------------------------------------------------------------

/-- Two messages of one version, sent at any time once the node is online,
announce the same quota. -/
def VersionIdentifies (tr : List AppNodeTransition) : Prop :=
  ∀ x ∈ tr, ∀ y ∈ tr, x.post.isOnline → y.post.isOnline →
    x.post.node.getProtocol.version = y.post.node.getProtocol.version →
    x.post.node.getProtocol = y.post.node.getProtocol

variable {s₀ s : AppNodeState} {tr : List AppNodeTransition}

/-- Where every call keeps the announcement, what was sent under the version the
node has now is what it sends now. -/
theorem announced_before (hRun : Run appNodeSystem s₀ tr s)
    (hKeeps : ∀ x ∈ tr, x.pre.isOnline → KeepsAnnouncement x.pre.node x.act) :
    ∀ x ∈ tr, x.post.isOnline → s.isOnline ∧ x.post.node.version ≤ s.node.version ∧
      (x.post.node.version = s.node.version → x.post.node.getProtocol = s.node.getProtocol) := by
  induction hRun with
  | nil => simp
  | @snoc t u tr call _ hStep ih =>
    obtain ⟨hApply, hOnline⟩ := hStep
    obtain ⟨hKeeps, hLast⟩ := List.forall_mem_append.mp hKeeps
    have hLast : t.isOnline → KeepsAnnouncement t.node call := hLast _ (List.mem_singleton_self _)
    obtain ⟨hMono, hIff⟩ := announcement_kept_iff hApply
    refine forall_snoc (fun x hx hxOnline => ?_) fun h => ⟨h, Int.le_refl _, fun _ => rfl⟩
    obtain ⟨htOnline, hLe, hSame⟩ := ih hKeeps x hx hxOnline
    refine ⟨hOnline.mpr (Or.inl htOnline), Int.le_trans hLe hMono, fun hVersion => ?_⟩
    have htVersion : u.node.version = t.node.version := by omega
    rw [hSame (hVersion.trans htVersion), hIff.mpr (hLast htOnline) htVersion]

/-- **A version identifies the quota it announces**, in exactly the runs whose
calls keep the announcement of the online node. -/
theorem version_identifies_iff (hInit : appNodeSystem.init s₀) (hRun : Run appNodeSystem s₀ tr s) :
    VersionIdentifies tr ↔ ∀ x ∈ tr, x.pre.isOnline → KeepsAnnouncement x.pre.node x.act := by
  obtain ⟨ptr, minUnits, fenceId, rfl⟩ := hInit
  induction hRun with
  | nil => simp [VersionIdentifies]
  | @snoc t u tr call hRun hStep ih =>
    have hStep' := hStep
    obtain ⟨hApply, hOnline⟩ := hStep'
    constructor
    · intro hIdentifies
      have hBefore : VersionIdentifies tr := fun x hx y hy =>
        hIdentifies x (List.mem_append_left _ hx) y (List.mem_append_left _ hy)
      refine forall_snoc (ih.mp hBefore) fun htOnline => ?_
      -- the node was online at the end of some call, and sent its quota then
      rcases hRun.end_cases with rfl | ⟨x, hx, rfl⟩
      · exact htOnline.elim
      · refine (announcement_kept_iff hApply).2.mp fun hVersion => ?_
        exact hIdentifies _ (List.mem_append_right _ (List.mem_singleton_self _)) x
          (List.mem_append_left _ hx) (hOnline.mpr (Or.inl htOnline)) htOnline hVersion
    · intro hKeeps x hx y hy hxOnline hyOnline hVersion
      have hSent := announced_before (hRun.snoc hStep) hKeeps
      have hIdentifies := ih.mpr fun x hx => hKeeps x (List.mem_append_left _ hx)
      rcases List.mem_append.mp hx with hx' | hx' <;> rcases List.mem_append.mp hy with hy' | hy'
      · exact hIdentifies x hx' y hy' hxOnline hyOnline hVersion
      · rw [List.mem_singleton] at hy'
        subst hy'
        exact (hSent x hx hxOnline).2.2 hVersion
      · rw [List.mem_singleton] at hx'
        subst hx'
        exact ((hSent y hy hyOnline).2.2 hVersion.symm).symm
      · rw [List.mem_singleton] at hx' hy'
        rw [hx', hy']

section Confirmation

/-- An app with a minimum of 10 tokens, promised 20, online. -/
def promised : AppNodeState where
  node     := { AppNode.init 0 10 0 with tokenQuota := 10, tokenQuotaNew := 20, version := 1 }
  isOnline := True

def newApp : AppNodeState := ⟨.init 0 10 0, False⟩

def onlineApp : AppNodeState :=
  ⟨{ AppNode.init 0 10 0 with tokenQuota := 10, tokenQuotaNew := 10 }, True⟩

/-- The pool has 100 tokens, and lets one app in. -/
def poolForOne : TokenGlobal := (TokenGlobal.init 1 10).increase 100

/-- The app is let in, -/
theorem step_onlineApp : appNodeSystem.step newApp (.online poolForOne) onlineApp :=
  ⟨by decide, iff_of_true trivial (Or.inr (show poolForOne.checkUpAppNum.2 = .ok by decide))⟩

/-- and promised 20 tokens. -/
theorem step_promised : appNodeSystem.step onlineApp (.updateTokenQuotaNew 20) promised :=
  ⟨by decide, iff_of_true trivial (Or.inl trivial)⟩

theorem run_promised : Run appNodeSystem newApp
    [⟨newApp, .online poolForOne, onlineApp⟩, ⟨onlineApp, .updateTokenQuotaNew 20, promised⟩]
    promised :=
  (Run.nil.snoc step_onlineApp).snoc step_promised

/-- Version 0 announces 10 tokens, and so does version 1. -/
theorem version_identifies_promised : VersionIdentifies
    [⟨newApp, .online poolForOne, onlineApp⟩, ⟨onlineApp, .updateTokenQuotaNew 20, promised⟩] := by
  refine (version_identifies_iff ⟨0, 10, 0, rfl⟩ run_promised).mpr ?_
  simp [newApp, KeepsAnnouncement]

/-- The app confirms 20 tokens, and version 1 announces 20. -/
theorem confirmation_changes_quota :
    ¬ ∀ (s₀ s : AppNodeState) (tr : List AppNodeTransition),
      appNodeSystem.init s₀ → Run appNodeSystem s₀ tr s → VersionIdentifies tr := by
  intro hAlways
  have hConfirm : appNodeSystem.step promised (.rcvd ⟨0, 1, 20⟩)
      ⟨(promised.node.rcvd ⟨0, 1, 20⟩ 0).1, True⟩ :=
    ⟨rfl, iff_of_true trivial (Or.inl trivial)⟩
  have hSame := hAlways newApp _ _ ⟨0, 10, 0, rfl⟩ (run_promised.snoc hConfirm)
    ⟨onlineApp, .updateTokenQuotaNew 20, promised⟩ (by simp) _
    (List.mem_append_right _ (List.mem_singleton_self _)) trivial trivial rfl
  revert hSame
  decide

end Confirmation

end DatastorQos
