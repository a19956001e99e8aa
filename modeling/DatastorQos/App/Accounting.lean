import DatastorQos.App.ManagerRuns

/-!
# datastor_qos — the app side accounts for every token

* `accounts_balance` — in every state between two calls, each online node has
  in use what the got requests it granted hold, queues exactly the requests
  that wait for it, and reports their costs; each live group counts its
  requests in `init`; and no two incarnations of an id share a fence, so what
  an earlier one granted is never counted as the later one's.

Fences repeat after `2 ^ 32` of them, so the runs are those that hand out no
more.
-/

namespace DatastorQos

open Keyed GrpHeap Runs

variable {Id : Type} {ops : IdOps Id}

/-- The books of one online node, as they stand between two calls. -/
structure NodeBalanced (ops : IdOps Id) (h : GrpHeap Id) (id : Id) (n : DispatchNode Id) : Prop where
  inuse  : n.baseNode.tokenInuse =
    ((h.reqs.filter fun r => r.stat = .got ∧ r.nodeid = n.fenceId).map (·.tokenNeed.cost)).sum
  nodup  : (n.lheadNodereq.tokenList.map ResourceList.owner).Nodup
  queued : ∀ rs, rs ∈ n.lheadNodereq.tokenList ↔
    ∃ r ∈ h.reqs, r.stat = .init ∧ ops.Same id r.tokenNeed.id ∧ r.needList = rs
  press  : n.lheadNodereq.press = (n.lheadNodereq.tokenList.map (·.rs.cost)).sum

theorem NodeAccounts.balanced {fenced calm : Prop} {h : GrpHeap Id} {id : Id} {n : DispatchNode Id}
    (hn : NodeAccounts ops fenced calm h [] [] id n) (hFenced : fenced) : NodeBalanced ops h id n where
  inuse  := by
    rw [hn.inuse (Or.inl hFenced), sum_filter]
    refine congrArg List.sum (List.map_congr_left fun r hr => ?_)
    unfold creditOf
    by_cases hMine : r.stat = .got ∧ r.nodeid = n.fenceId
    · have hSame := hn.got_id hFenced r hr hMine.1 hMine.2
      simp [hMine, hSame]
    · rw [if_neg fun hc => hMine ⟨hc.1, hc.2.1⟩, if_neg (by simpa using hMine)]
  nodup  := hn.nodup
  queued := by
    intro rs
    rw [hn.queued]
    constructor
    · rintro ⟨r, w, heq⟩
      exact ⟨r, w.mem, w.stat, w.same, heq⟩
    · rintro ⟨r, hr, hStat, hSame, heq⟩
      exact ⟨r, ⟨hr, hStat, hSame, by simp⟩, heq⟩
  press  := hn.press

/-- Over a run every online node kept its fence or got one handed out on the
way. -/
theorem Run.fences {s t : AppState ops} {tr : List (AppTransition ops)}
    (hRun : Run (managerSystem ops) s tr t) : Fences s.manager t.manager := by
  induction hRun with
  | nil => exact .refl _
  | snoc _ hStep ih => exact ih.trans (step_fences hStep)

/-- A node that was offline in between comes back with another fence. -/
theorem fence_of_incarnation {s₀ s₁ s₂ s : AppState ops} {tr₁ tr₂ tr₃ : List (AppTransition ops)}
    (hInit : (managerSystem ops).init s₀) (hRun₁ : Run (managerSystem ops) s₀ tr₁ s₁)
    (hRun₂ : Run (managerSystem ops) s₁ tr₂ s₂) (hRun₃ : Run (managerSystem ops) s₂ tr₃ s)
    (hVersion : s.manager.version ≤ 2 ^ 32) {id : Id} {n₁ n : DispatchNode Id}
    (hn₁ : s₁.manager.node? id = some n₁) (hOff : s₂.manager.node? id = none)
    (hn : s.manager.node? id = some n) : n₁.fenceId ≠ n.fenceId := by
  have hBooks := (Run.inv_any hInit hRun₁).books
  obtain ⟨k₁, hk₁, heq₁⟩ := hBooks.fence_lt id n₁ hn₁
  have hLe₂ := (Run.fences hRun₂).version_le
  rcases (Run.fences hRun₃).fence id n hn with ⟨n₂, hn₂, -⟩ | ⟨k, hk, hk', heq⟩
  · rw [hOff] at hn₂
    cases hn₂
  · rw [heq₁, heq]
    intro hSame
    have hMod := congrArg BitVec.toNat hSame
    rw [BitVec.toNat_ofNat, BitVec.toNat_ofNat, Nat.mod_eq_of_lt (by omega),
      Nat.mod_eq_of_lt (by omega)] at hMod
    omega

/-- **Accounting.** Between any two calls of any run the books balance. -/
theorem accounts_balance {s₀ s : AppState ops} {tr : List (AppTransition ops)}
    (hInit : (managerSystem ops).init s₀) (hRun : Run (managerSystem ops) s₀ tr s)
    (hVersion : s.manager.version ≤ 2 ^ 32) :
    (∀ id n, s.manager.node? id = some n → NodeBalanced ops s.manager.groups id n) ∧
    (∀ gid g, group? s.manager.groups gid = some g → g.reqPendingNr = g.initNr) ∧
    (∀ s₁ s₂ tr₁ tr₂ tr₃, Run (managerSystem ops) s₀ tr₁ s₁ → Run (managerSystem ops) s₁ tr₂ s₂ →
      Run (managerSystem ops) s₂ tr₃ s → ∀ id n₁ n, s₁.manager.node? id = some n₁ →
      s₂.manager.node? id = none → s.manager.node? id = some n → n₁.fenceId ≠ n.fenceId) := by
  have hInv : s.Inv True False := Run.inv hInit hRun (fun _ => hVersion) False.elim
  have hBooks := hInv.books
  refine ⟨fun id n hn => (hBooks.node id n hn).balanced trivial, fun gid g hg => ?_, ?_⟩
  · exact (hBooks.sound.group g (mem_of_lookup hg)).pending_eq
  · intro s₁ s₂ tr₁ tr₂ tr₃ hRun₁ hRun₂ hRun₃ id n₁ n hn₁ hOff hn
    exact fence_of_incarnation hInit hRun₁ hRun₂ hRun₃ hVersion hn₁ hOff hn

section TwoGets

/-- A manager with room for eight of everything. -/
def freshApp : AppState IdOps.nat := ⟨.init IdOps.nat 2 8 8 8 (by decide), []⟩

theorem freshApp_initial : (managerSystem IdOps.nat).init freshApp :=
  ⟨2, 8, 8, 8, by decide, rfl⟩

/-- A get of some tokens of one resource. -/
def getOne (id : Nat) (cost : ULong) : ManagerCall Nat := .getTokenGrp ⟨⟨id, cost⟩, []⟩ 0

def afterFirstGet : AppState IdOps.nat := freshApp.after (getOne 1 6) (by decide)

def afterSecondGet : AppState IdOps.nat := afterFirstGet.after (getOne 1 6) (by decide)

def afterFirstPut : AppState IdOps.nat := afterSecondGet.after (.putTokenGrp 0 none) (by decide)

theorem run_afterSecondGet :
    ∃ tr, Run (managerSystem IdOps.nat) freshApp tr afterSecondGet :=
  ⟨_, (Run.nil.snoc (managerSystem_step freshApp (getOne 1 6) trivial _)).snoc
    (managerSystem_step afterFirstGet (getOne 1 6) trivial _)⟩

/-- The first get holds six tokens, the second waits for six. -/
theorem accounts_balance_two_gets :
    ∃ n, afterSecondGet.manager.node? 1 = some n ∧ n.baseNode.tokenInuse = 6 ∧
      n.lheadNodereq.press = 6 ∧ NodeBalanced IdOps.nat afterSecondGet.manager.groups 1 n := by
  obtain ⟨tr, hRun⟩ := run_afterSecondGet
  have hNode : (afterSecondGet.manager.node? 1).isSome = true := by decide
  refine ⟨(afterSecondGet.manager.node? 1).get hNode, (Option.some_get hNode).symm, rfl,
    rfl, ?_⟩
  exact (accounts_balance freshApp_initial hRun (by decide)).1 1 _ (Option.some_get hNode).symm

end TwoGets

end DatastorQos
