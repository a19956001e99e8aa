import DatastorQos.App.Accounting
import DatastorQos.App.PlaceOrder

/-!
# datastor_qos — some group can always be put

Groups take the tokens of several nodes one after the other and keep what they
have while they wait. Where nodes stay online and quotas are not lowered:

* `some_group_can_be_put` — if no group that has to wait took tokens past a
  queue, some live group has everything it asked for;
* `overtaking_deadlocks` — otherwise all live groups can wait for each other.

The first is by descent: a group that waits, waits for an older one
(`waits_for_older`).
-/

namespace DatastorQos

open Keyed GrpHeap Runs

variable {Id : Type} {ops : IdOps Id}

/-- A call of an application that plays by the rules: a group names each of its
nodes once, none of them offline, and asks for no more than its quota; only
granted groups are put. Nodes stay online and no message lowers a quota. -/
def Orderly (x : AppTransition ops) : Prop :=
  match x.act.call with
  | .getTokenGrp ring _ =>
    (ring.walk.Pairwise fun a b => ¬ ops.Same a.id b.id) ∧
      (x.act.seen.answer ≠ none → ∀ rs ∈ ring.walk,
        ∃ n ∈ x.post.manager.node? rs.id, rs.cost ≤ n.baseNode.tokenQuota)
  | .putTokenGrp gid failRs =>
    failRs = none ∧ ∀ g ∈ group? x.pre.manager.groups gid, g.err = .ok
  | .nodeOnline _ => True
  | .rcvd id dta => ∀ n ∈ x.pre.manager.node? id, n.baseNode.NotLowered dta
  | .nodeOffline _ | .nodeReset _ => False

/-- A get that has to wait took nothing of a node that had others waiting. -/
def WaitsItsTurn (x : AppTransition ops) : Prop :=
  ∀ gid, x.act.seen.answer = some (gid, .pending) → ∀ r ∈ x.post.manager.groups.reqs,
    r.tokenGrp = gid → r.stat = .got →
      ∀ n ∈ x.pre.manager.node? r.tokenNeed.id, n.lheadNodereq.tokenList = []

theorem Orderly.keepsNodes {x : AppTransition ops} (h : Orderly x) : x.act.call.KeepsNodes := by
  unfold Orderly at h
  unfold ManagerCall.KeepsNodes
  split at h <;> simp_all

/-- One call keeps the order of waiting. -/
theorem step_fair {s s' : AppState ops} {a : AppAct Id} (hi : s.Inv False True)
    (hf : Fair s.manager []) (hStep : (managerSystem ops).step s a s')
    (hOrderly : Orderly ⟨s, a, s'⟩) (hTurn : WaitsItsTurn ⟨s, a, s'⟩) : Fair s'.manager [] := by
  obtain ⟨hLegal, hApply, -⟩ := hStep
  obtain ⟨call, seen⟩ := a
  obtain ⟨m', held'⟩ := s'
  simp only at hLegal hApply
  cases call with
  | getTokenGrp ring pri =>
    obtain ⟨res, hGet, heq⟩ := Option.map_eq_some_iff.mp hApply
    obtain ⟨rfl, rfl⟩ := Prod.mk.inj heq
    refine getTokenGrp_fair hf hi.books hi.fresh hGet hOrderly.1 (fun hSome => ?_)
      fun hGrp hErr => ?_
    · exact hOrderly.2 (by simpa using hSome)
    · exact hTurn s.manager.nextGrp (by simp [hGrp, hErr])
  | putTokenGrp gid failRs =>
    obtain ⟨g, hg, hz⟩ := (hi.held gid).mp hLegal
    obtain ⟨rfl, -⟩ := Prod.mk.inj (Option.some.inj hApply)
    obtain ⟨rfl, -⟩ := hOrderly
    have hgid := key_of_lookup hg
    subst hgid
    exact putTokenGrp_fair hf hi.books hg hz
  | nodeOnline id =>
    obtain ⟨m₁, hOnline, heq⟩ := Option.map_eq_some_iff.mp hApply
    obtain ⟨rfl, -⟩ := Prod.mk.inj heq
    exact nodeOnline_fair hf hi.books hOnline
  | nodeOffline id => exact hOrderly.elim
  | nodeReset id => exact hOrderly.elim
  | rcvd id dta =>
    obtain ⟨⟨m₁, callbacks⟩, hRcvd, heq⟩ := Option.map_eq_some_iff.mp hApply
    obtain ⟨rfl, -⟩ := Prod.mk.inj heq
    exact rcvd_fair hf hi.books hRcvd hOrderly

theorem Fair.init {s : AppState ops} (h : (managerSystem ops).init s) : Fair s.manager [] := by
  have hNone : ∀ {p : Prop} id n, s.manager.node? id = some n → p := fun id n hn => by
    rw [AppState.node?_of_init h] at hn
    cases hn
  have hReq : ∀ {p : Prop} r, r ∈ s.manager.groups.reqs → p := fun r hr => by
    rw [(AppState.blank_of_init h).1] at hr
    cases hr
  exact {
    order := {
      sorted := fun id n hn => hNone id n hn
      ahead  := fun r hr => hReq r hr
      nofail := fun r hr => hReq r hr
      once   := fun r hr => hReq r hr
      steady := fun id n hn => hNone id n hn
      within := fun r hr => hReq r hr }
    front := fun id n hn => hNone id n hn }

theorem Run.fair {s₀ s : AppState ops} {tr : List (AppTransition ops)}
    (hInit : (managerSystem ops).init s₀) (hRun : Run (managerSystem ops) s₀ tr s)
    (hOrderly : ∀ x ∈ tr, Orderly x) (hTurn : ∀ x ∈ tr, WaitsItsTurn x) : Fair s.manager [] := by
  induction hRun with
  | nil => exact .init hInit
  | @snoc t u tr a hRun hStep ih =>
    have hBefore := fun x hx => hOrderly x (List.mem_append_left _ hx)
    have hInv : t.Inv False True :=
      Run.inv hInit hRun False.elim fun _ x hx => (hBefore x hx).keepsNodes
    have hLast : (⟨t, a, u⟩ : AppTransition ops) ∈ tr ++ [⟨t, a, u⟩] :=
      List.mem_append_right _ (List.mem_singleton_self _)
    exact step_fair hInv (ih hBefore fun x hx => hTurn x (List.mem_append_left _ hx)) hStep
      (hOrderly _ hLast) (hTurn _ hLast)

/-- Where no live group is settled, each waits for an older one. -/
theorem waits_for_older {m : Manager ops} (ha : m.Books False True [] []) (hf : Fair m [])
    (hAll : ∀ g ∈ m.groups, m.groups.Unsettled g.gid) {g : TokenReqgrp Id} (hg : g ∈ m.groups) :
    ∃ g' ∈ m.groups, g'.gid < g.gid := by
  have hOwner : ∀ x ∈ m.groups.reqs, ∃ g ∈ m.groups, x.tokenGrp = g.gid := by
    intro x hx
    obtain ⟨g, hg, hxg⟩ := mem_reqs.mp hx
    exact ⟨g, hg, (ha.sound.group g hg).owner x hxg⟩
  obtain ⟨r, hr, hgrp, hInit⟩ := hAll g hg
  obtain ⟨n, hn⟩ := ha.waiting r hr hInit (by simp)
  have hNode := ha.node _ n hn
  -- so its node has a queue, and the queue stands still
  have hQueued := (hNode.queued r.needList).mpr ⟨r, ⟨hr, hInit, ops.same_refl _, by simp⟩, rfl⟩
  obtain ⟨rs, rest, hTokens⟩ := List.exists_cons_of_ne_nil (List.ne_nil_of_mem hQueued)
  obtain ⟨x, hx, rfl⟩ := (hNode.queued rs).mp (by simp [hTokens])
  rcases hf.front _ n hn with hFront | ⟨y, hy, hGot, -, -, hSettled⟩
  · have hNot : ¬ n.baseNode.Fits x.tokenNeed.cost :=
      hFront x.needList (by simp [NodereqList.front, hTokens])
    have hCost := hf.order.within x hx.mem n ((ha.congr _ _ hx.same).symm.trans hn)
    -- not for lack of quota, so somebody holds tokens here
    have hInuse : n.baseNode.tokenInuse ≠ 0 := by
      intro hZero
      refine hNot ?_
      unfold DispatchBaseNode.Fits
      simpa [hZero] using hCost
    rw [hNode.inuse (Or.inr trivial), gotSum] at hInuse
    obtain ⟨y, hy, hCredit⟩ : ∃ y ∈ m.groups.reqs,
        creditOf ops r.tokenNeed.id n.fenceId [] y ≠ 0 := by
      by_contra hNone
      refine hInuse (List.sum_eq_zero fun c hc => ?_)
      obtain ⟨y, hy, rfl⟩ := List.mem_map.mp hc
      by_contra hne
      exact hNone ⟨y, hy, hne⟩
    obtain ⟨hGot, -, hSame, -⟩ := not_not.mp fun hNot => hCredit (if_neg hNot)
    obtain ⟨g', hg', hy'⟩ := hOwner y hy
    refine ⟨g', hg', ?_⟩
    rw [← hy', ← hgrp]
    exact hf.order.ahead y hy r hr hGot hInit hSame.symm (hy' ▸ hAll g' hg')
  · obtain ⟨g', hg', hy'⟩ := hOwner y hy
    exact absurd (hy' ▸ hAll g' hg') hSettled

/-- **No deadlock.** -/
theorem some_group_can_be_put {s₀ s : AppState ops} {tr : List (AppTransition ops)}
    (hInit : (managerSystem ops).init s₀) (hRun : Run (managerSystem ops) s₀ tr s)
    (hOrderly : ∀ x ∈ tr, Orderly x) (hTurn : ∀ x ∈ tr, WaitsItsTurn x)
    (hLive : s.manager.groups ≠ []) :
    ∃ g ∈ s.manager.groups, ∀ r ∈ g.lheadReqgrp, r.stat = .got := by
  have hInv : s.Inv False True :=
    Run.inv hInit hRun False.elim fun _ x hx => (hOrderly x hx).keepsNodes
  have hf := Run.fair hInit hRun hOrderly hTurn
  by_contra hNone
  have hAll : ∀ g ∈ s.manager.groups, s.manager.groups.Unsettled g.gid := by
    intro g hg
    by_contra hSettled
    refine hNone ⟨g, hg, fun r hr => ?_⟩
    have hrm : r ∈ s.manager.groups.reqs := mem_reqs.mpr ⟨g, hg, hr⟩
    have hgrp := (hInv.books.sound.group g hg).owner r hr
    cases hStat : r.stat with
    | init => exact absurd ⟨r, hrm, hgrp, hStat⟩ hSettled
    | got => rfl
    | failed => exact absurd hStat (hf.order.nofail r hrm)
  -- there is no oldest group
  have hDescent : ∀ k, ∀ g ∈ s.manager.groups, g.gid ≠ k := by
    intro k
    induction k using Nat.strong_induction_on with
    | _ k ih =>
      rintro g hg rfl
      obtain ⟨g', hg', hLt⟩ := waits_for_older hInv.books hf hAll hg
      exact ih g'.gid hLt g' hg' rfl
  obtain ⟨g, hg⟩ := List.exists_mem_of_ne_nil _ hLive
  exact hDescent g.gid g hg rfl

-- ---------------------------------------------------------------------------
-- A group that takes its turn, and one that does not
-- ---------------------------------------------------------------------------

/-- A get of the tokens of two resources. -/
def getTwo (cost₁ cost₂ : ULong) : ManagerCall Nat := .getTokenGrp ⟨⟨1, cost₁⟩, [⟨2, cost₂⟩]⟩ 0

/-- The second group takes the rest of node 1 and most of node 2, -/
def afterFull : AppState IdOps.nat := afterFirstGet.after (getTwo 4 6) (by decide)

/-- the third waits on node 1 and has what was left of node 2, where nobody waits, -/
def afterTurn : AppState IdOps.nat := afterFull.after (getTwo 7 4) (by decide)

/-- and the first gives back less than it needs. -/
def afterSmallPut : AppState IdOps.nat := afterTurn.after (.putTokenGrp 0 none) (by decide)

/-- The third group waits, holding tokens of another node, and the second can be
put. -/
theorem some_group_can_be_put_two_nodes :
    (∃ r ∈ afterSmallPut.manager.groups.reqs, r.tokenGrp = 2 ∧ r.stat = .init) ∧
      ∃ g ∈ afterSmallPut.manager.groups, ∀ r ∈ g.lheadReqgrp, r.stat = .got := by
  have hFirst := managerSystem_step freshApp (getOne 1 6) trivial (by decide)
  have hFull := managerSystem_step afterFirstGet (getTwo 4 6) trivial (by decide)
  have hTurn := managerSystem_step afterFull (getTwo 7 4) trivial (by decide)
  have hPut := managerSystem_step afterTurn (.putTokenGrp 0 none)
    (show 0 ∈ afterTurn.held by decide) (by decide)
  have hRun := (((Run.nil.snoc hFirst).snoc hFull).snoc hTurn).snoc hPut
  refine ⟨by decide, some_group_can_be_put freshApp_initial hRun ?_ ?_ (by decide)⟩
  · refine forall_snoc (forall_snoc (forall_snoc (forall_snoc (by simp) ?_) ?_) ?_) ?_
    · exact And.intro (by decide) fun _ => by decide
    · exact And.intro (by decide) fun _ => by decide
    · exact And.intro (by decide) fun _ => by decide
    · exact And.intro rfl (by decide)
  · refine forall_snoc (forall_snoc (forall_snoc (forall_snoc (by simp) ?_) ?_) ?_) ?_
    · intro gid hAnswer
      exact absurd (show some (0, QosError.ok) = some (gid, .pending) from hAnswer) (by simp)
    · intro gid hAnswer
      exact absurd (show some (1, QosError.ok) = some (gid, .pending) from hAnswer) (by simp)
    · intro gid hAnswer
      have hGid : some (2, QosError.pending) = some (gid, .pending) := hAnswer
      cases hGid
      exact show ∀ r ∈ afterTurn.manager.groups.reqs, r.tokenGrp = 2 → r.stat = .got →
        ∀ n ∈ afterFull.manager.node? r.tokenNeed.id, n.lheadNodereq.tokenList = [] by decide
    · intro gid hAnswer
      exact absurd (show none = some (gid, QosError.pending) from hAnswer) (by simp)

/-- The second waits on node 1 and holds tokens of node 2, -/
def afterWaiter : AppState IdOps.nat := afterFirstGet.after (getTwo 7 6) (by decide)

/-- the third takes what is left of node 1 and waits on node 2, -/
def afterOvertaker : AppState IdOps.nat := afterWaiter.after (getTwo 4 6) (by decide)

/-- and what the first gives back is not enough for the second. -/
def afterLastPut : AppState IdOps.nat := afterOvertaker.after (.putTokenGrp 0 none) (by decide)

/-- Two groups hold what the other one waits for. -/
theorem overtaking_deadlocks :
    ¬ ∀ (s₀ s : AppState IdOps.nat) (tr : List (AppTransition IdOps.nat)),
      (managerSystem IdOps.nat).init s₀ → Run (managerSystem IdOps.nat) s₀ tr s →
      (∀ x ∈ tr, Orderly x) → s.manager.groups ≠ [] →
      ∃ g ∈ s.manager.groups, ∀ r ∈ g.lheadReqgrp, r.stat = .got := by
  intro hAlways
  have hFirst := managerSystem_step freshApp (getOne 1 6) trivial (by decide)
  have hWaiter := managerSystem_step afterFirstGet (getTwo 7 6) trivial (by decide)
  have hOvertaker := managerSystem_step afterWaiter (getTwo 4 6) trivial (by decide)
  have hPut := managerSystem_step afterOvertaker (.putTokenGrp 0 none)
    (show 0 ∈ afterOvertaker.held by decide) (by decide)
  have hRun := (((Run.nil.snoc hFirst).snoc hWaiter).snoc hOvertaker).snoc hPut
  have hSettled := hAlways _ afterLastPut _ freshApp_initial hRun ?_ (by decide)
  · revert hSettled
    decide
  · refine forall_snoc (forall_snoc (forall_snoc (forall_snoc (by simp) ?_) ?_) ?_) ?_
    · exact And.intro (by decide) fun _ => by decide
    · exact And.intro (by decide) fun _ => by decide
    · exact And.intro (by decide) fun _ => by decide
    · exact And.intro rfl (by decide)

end DatastorQos
