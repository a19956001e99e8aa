import DatastorQos.App.Deadlock
import DatastorQos.App.Verdicts

/-!
# datastor_qos — the groups drain

`some_group_can_be_put` says that an application that plays by the rules can go
on. Here it does: it stops asking and puts its groups, in whatever order it
holds them.

* `put_step`      — a put takes one group away and keeps the order of waiting;
* `exists_held`   — as long as there are groups, one of them can be put;
* `groups_drain`  — so after as many puts as there are groups all are gone, each
  that waited was called back once, with `QOS_ERROR_OK`, and nothing is in use
  or queued at any node.
-/

namespace DatastorQos

open Keyed GrpHeap Manager Runs

variable {Id : Type} {ops : IdOps Id}

-- ---------------------------------------------------------------------------
-- Callbacks over a run
-- ---------------------------------------------------------------------------

/-- A group known when a run starts is called back if the run settles it. -/
theorem told_of_known {s t : AppState ops} {tr : List (AppTransition ops)}
    (hi : s.Inv False False) (hRun : Run (managerSystem ops) s tr t) {gid : GrpPtr}
    {g : TokenReqgrp Id} (hg : s.manager.record? gid = some g) :
    t.Inv False False ∧ ∃ g', t.manager.record? gid = some g' ∧ (g.initNr = 0 → g' = g) ∧
      told tr gid = if g.initNr ≠ 0 ∧ g'.initNr = 0 then [g'.err] else [] := by
  induction hRun with
  | nil => exact ⟨hi, g, hg, fun _ => rfl, by simp [told]⟩
  | snoc _ hStep ih =>
    obtain ⟨hi₁, g₁, hg₁, hKept₁, hTold₁⟩ := ih
    obtain ⟨hi', hf⟩ := step_effect hi₁ hStep False.elim False.elim
    obtain ⟨g', hg', hKept, -⟩ := hf.fate.kept gid g₁ hg₁
    refine ⟨hi', g', hg', fun hz => ?_, ?_⟩
    · obtain rfl := hKept₁ hz
      exact hKept hz
    · rw [told_snoc, hTold₁, hf.fate.told_known hg₁ hg']
      by_cases hz : g.initNr = 0
      · obtain rfl := hKept₁ hz
        simp [hz]
      · by_cases hz₁ : g₁.initNr = 0
        · obtain rfl := hKept hz₁
          simp [hz, hz₁]
        · simp [hz, hz₁]

-- ---------------------------------------------------------------------------
-- States between orderly calls
-- ---------------------------------------------------------------------------

/-- The books balance and who waits, waits for a reason. -/
structure AppState.Peaceful (s : AppState ops) : Prop where
  inv  : s.Inv False True
  fair : Fair s.manager []

theorem Run.peaceful {s₀ s : AppState ops} {tr : List (AppTransition ops)}
    (hInit : (managerSystem ops).init s₀) (hRun : Run (managerSystem ops) s₀ tr s)
    (hOrderly : ∀ x ∈ tr, Orderly x) (hTurn : ∀ x ∈ tr, WaitsItsTurn x) : s.Peaceful where
  inv  := Run.inv hInit hRun False.elim fun _ x hx => (hOrderly x hx).keepsNodes
  fair := Run.fair hInit hRun hOrderly hTurn

namespace AppState.Peaceful

variable {s s' : AppState ops} {gid : GrpPtr} {g : TokenReqgrp Id}

/-- A settled group got all it asked for. -/
theorem err_eq (hp : s.Peaceful) (hg : group? s.manager.groups gid = some g) (hz : g.initNr = 0) :
    g.err = .ok := by
  have hm := mem_of_lookup hg
  have hVerdict := (hp.inv.books.sound.group g hm).verdict hz
  refine hVerdict.got fun r hr => ?_
  cases hStat : r.stat with
  | init => exact absurd hStat (hVerdict.resolved r hr)
  | got => rfl
  | failed => exact absurd hStat (hp.fair.order.nofail r (mem_reqs.mpr ⟨g, hm, hr⟩))

/-- A put of a group the application holds. -/
theorem put_step (hp : s.Peaceful) {seen : Seen}
    (hStep : (managerSystem ops).step s ⟨.putTokenGrp gid none, seen⟩ s') :
    s'.Peaceful ∧ s'.manager.groups.length + 1 = s.manager.groups.length ∧
      ∃ g, s'.manager.freed = g :: s.manager.freed ∧ g.err = .ok := by
  have hInv := (step_effect hp.inv hStep False.elim fun _ => rfl).1
  obtain ⟨hLegal, hApply, -⟩ := hStep
  obtain ⟨g, hg, hz⟩ := (hp.inv.held gid).mp hLegal
  obtain rfl := key_of_lookup hg
  obtain ⟨hManager, -⟩ := Prod.mk.inj (Option.some.inj hApply)
  obtain ⟨h, hPut⟩ := putTokenGrp_effect hp.inv.books hg hz none fun _ => rfl
  rw [hManager] at hPut
  refine ⟨⟨hInv, ?_⟩, ?_, g, hPut.freed_eq, hp.err_eq hg hz⟩
  · exact hManager ▸ putTokenGrp_fair hp.fair hp.inv.books hg hz
  · have hDistinct := hPut.delivers.sound.distinct
    have hLength := length_eq_of_domain hp.inv.books.sound.distinct hDistinct hPut.delivers.domain
    rw [hPut.groups, (length_erase hDistinct hPut.kept).1, hLength]

/-- As long as there are groups, the application holds one. -/
theorem exists_held (hp : s.Peaceful) (hLive : s.manager.groups ≠ []) : ∃ gid, gid ∈ s.held := by
  by_contra hNone
  have hAll : ∀ g ∈ s.manager.groups, s.manager.groups.Unsettled g.gid := by
    intro g hg
    have hLookup := lookup_of_mem hp.inv.books.sound.distinct hg
    refine hp.inv.books.sound.unsettled_iff.mpr ⟨g, hLookup, fun hz => ?_⟩
    exact hNone ⟨g.gid, (hp.inv.held _).mpr ⟨g, hLookup, hz⟩⟩
  -- the oldest group waits for an older one
  have hSome : s.manager.groups.map TokenReqgrp.gid ≠ [] := by simpa using hLive
  obtain ⟨g, hg, hMin⟩ := List.mem_map.mp (List.min_mem hSome)
  obtain ⟨g', hg', hLt⟩ := waits_for_older hp.inv.books hp.fair hAll hg
  have hLe := List.min_le_of_mem (List.mem_map_of_mem (f := TokenReqgrp.gid) hg')
  rw [← hMin] at hLe
  exact Nat.not_lt.mpr hLe hLt

/-- Without groups nothing is in use and nothing is queued. -/
theorem idle (hp : s.Peaceful) (hNone : s.manager.groups = []) {id : Id} {n : DispatchNode Id}
    (hn : s.manager.node? id = some n) :
    n.baseNode.tokenInuse = 0 ∧ n.lheadNodereq.tokenList = [] ∧ n.lheadNodereq.press = 0 := by
  have hNode := hp.inv.books.node id n hn
  have hQueue : n.lheadNodereq.tokenList = [] := by
    refine List.eq_nil_iff_forall_not_mem.mpr fun rs hrs => ?_
    obtain ⟨r, hw, -⟩ := (hNode.queued rs).mp hrs
    have hMem := hw.mem
    rw [hNone] at hMem
    cases hMem
  have hInuse := hNode.inuse (Or.inr trivial)
  have hPress := hNode.press
  unfold NodereqList.PressEq at hPress
  rw [hNone] at hInuse
  rw [hQueue] at hPress
  exact ⟨hInuse, hQueue, hPress⟩

end AppState.Peaceful

-- ---------------------------------------------------------------------------
-- Runs of puts
-- ---------------------------------------------------------------------------

/-- The application puts a group, and reports no node. -/
def Puts (x : AppTransition ops) : Prop := ∃ gid, x.act.call = .putTokenGrp gid none

theorem Puts.step {s s' : AppState ops} {a : AppAct Id} (hp : s.Peaceful)
    (hStep : (managerSystem ops).step s a s') (hPuts : Puts ⟨s, a, s'⟩) :
    s'.Peaceful ∧ s'.manager.groups.length + 1 = s.manager.groups.length ∧
      ∃ g, s'.manager.freed = g :: s.manager.freed ∧ g.err = .ok := by
  obtain ⟨call, seen⟩ := a
  obtain ⟨gid, rfl⟩ := hPuts
  exact hp.put_step hStep

theorem exists_puts {s : AppState ops} (hp : s.Peaceful) :
    ∃ tr t, Run (managerSystem ops) s tr t ∧ (∀ x ∈ tr, Puts x) ∧ t.manager.groups = [] := by
  obtain ⟨tr, t, hRun, hPuts, -, hz⟩ := Run.exists_of_progress (S := managerSystem ops)
    (I := AppState.Peaceful) (Q := Puts) (μ := fun s => s.manager.groups.length)
    (fun s hp hne => by
      obtain ⟨gid, hgid⟩ := hp.exists_held fun hNone => hne (by rw [hNone]; rfl)
      have hStep := managerSystem_step s (.putTokenGrp gid none) hgid rfl
      obtain ⟨hp', hDown, -⟩ := hp.put_step hStep
      exact ⟨_, _, hStep, ⟨gid, rfl⟩, hp', by omega⟩) hp
  exact ⟨tr, t, hRun, hPuts, List.eq_nil_of_length_eq_zero hz⟩

/-- What is given back in a run of puts had got all it asked for. -/
theorem freed_of_puts {s t : AppState ops} {tr : List (AppTransition ops)} (hp : s.Peaceful)
    (hRun : Run (managerSystem ops) s tr t) (hPuts : ∀ x ∈ tr, Puts x) :
    t.Peaceful ∧ ∃ gs, t.manager.freed = gs ++ s.manager.freed ∧ ∀ g ∈ gs, g.err = .ok := by
  induction hRun with
  | nil => exact ⟨hp, [], rfl, by simp⟩
  | snoc _ hStep ih =>
    obtain ⟨hBefore, hLast⟩ := List.forall_mem_append.mp hPuts
    obtain ⟨hp₁, gs, hFreed, hOk⟩ := ih hBefore
    obtain ⟨hp', -, g, hGiven, hErr⟩ := Puts.step hp₁ hStep (List.forall_mem_singleton.mp hLast)
    refine ⟨hp', g :: gs, ?_, List.forall_mem_cons.mpr ⟨hErr, hOk⟩⟩
    rw [hGiven, hFreed, List.cons_append]

theorem told_of_drained {s t : AppState ops} {tr : List (AppTransition ops)} (hp : s.Peaceful)
    (hi : s.Inv False False) (hRun : Run (managerSystem ops) s tr t) (hPuts : ∀ x ∈ tr, Puts x)
    (hNone : t.manager.groups = []) {g : TokenReqgrp Id} (hg : g ∈ s.manager.groups) :
    told tr g.gid = if g.initNr = 0 then [] else [.ok] := by
  have hLookup := lookup_of_mem hp.inv.books.sound.distinct hg
  obtain ⟨hi', g', hg', -, hTold⟩ := told_of_known hi hRun (record?_of_group? hLookup)
  have hFreed : group? t.manager.freed g.gid = some g' := by
    rcases record?_cases hg' with hLive | ⟨-, hFreed⟩
    · rw [hNone] at hLive
      cases hLive
    · exact hFreed
  have hz := (hi'.records.ended g.gid g' hFreed).1
  obtain ⟨-, gs, hSplit, hOk⟩ := freed_of_puts hp hRun hPuts
  have hErr : g'.err = .ok := by
    have hMem := mem_of_lookup hFreed
    rw [hSplit] at hMem
    rcases List.mem_append.mp hMem with hMem | hMem
    · exact hOk g' hMem
    · -- it was live when the puts began
      cases hOld : group? s.manager.freed g.gid with
      | some x =>
        have hLive := hp.inv.records.apart g.gid x hOld
        rw [show group? s.manager.groups g.gid = some g from hLookup] at hLive
        cases hLive
      | none => exact absurd (key_of_lookup hFreed) (lookup_eq_none_iff.mp hOld g' hMem)
  rw [hTold, hErr]
  by_cases hgz : g.initNr = 0 <;> simp [hgz, hz]

/-- **The groups drain.** -/
theorem groups_drain {s₀ s : AppState ops} {tr : List (AppTransition ops)}
    (hInit : (managerSystem ops).init s₀) (hRun : Run (managerSystem ops) s₀ tr s)
    (hOrderly : ∀ x ∈ tr, Orderly x) (hTurn : ∀ x ∈ tr, WaitsItsTurn x)
    {puts : List (AppTransition ops)} {t : AppState ops} (hPutRun : Run (managerSystem ops) s puts t)
    (hPuts : ∀ x ∈ puts, Puts x) :
    puts.length + t.manager.groups.length = s.manager.groups.length ∧
    (∃ more u, Run (managerSystem ops) t more u ∧ (∀ x ∈ more, Puts x) ∧ u.manager.groups = []) ∧
    (t.manager.groups = [] →
      (∀ g ∈ s.manager.groups, told puts g.gid = if g.initNr = 0 then [] else [.ok]) ∧
      ∀ id n, t.manager.node? id = some n → n.baseNode.tokenInuse = 0 ∧
        n.lheadNodereq.tokenList = [] ∧ n.lheadNodereq.press = 0) := by
  have hp := Run.peaceful hInit hRun hOrderly hTurn
  obtain ⟨hp', hLength⟩ := hPutRun.length_add_measure (I := AppState.Peaceful)
    (μ := fun s => s.manager.groups.length)
    (fun s a s' hp hStep hPuts => by
      obtain ⟨hp', hDown, -⟩ := Puts.step hp hStep hPuts
      exact ⟨hp', hDown⟩) hPuts hp
  refine ⟨hLength, exists_puts hp', fun hNone => ⟨fun g hg => ?_, fun id n hn => hp'.idle hNone hn⟩⟩
  exact told_of_drained hp (Run.inv_any hInit hRun) hPutRun hPuts hNone hg

section TwoGets

theorem orderly_two_gets : ∃ tr, Run (managerSystem IdOps.nat) freshApp tr afterSecondGet ∧
    (∀ x ∈ tr, Orderly x) ∧ ∀ x ∈ tr, WaitsItsTurn x := by
  have hFirst := managerSystem_step freshApp (getOne 1 6) trivial (by decide)
  have hSecond := managerSystem_step afterFirstGet (getOne 1 6) trivial (by decide)
  refine ⟨_, (Run.nil.snoc hFirst).snoc hSecond, forall_snoc (forall_snoc (by simp) ?_) ?_,
    forall_snoc (forall_snoc (by simp) ?_) ?_⟩
  · exact And.intro (by decide) fun _ => by decide
  · exact And.intro (by decide) fun _ => by decide
  · intro gid hAnswer
    exact absurd (show some (0, QosError.ok) = some (gid, .pending) from hAnswer) (by simp)
  · intro gid hAnswer
    have hGid : some (1, QosError.pending) = some (gid, .pending) := hAnswer
    cases hGid
    exact show ∀ r ∈ afterSecondGet.manager.groups.reqs, r.tokenGrp = 1 → r.stat = .got →
      ∀ n ∈ afterFirstGet.manager.node? r.tokenNeed.id, n.lheadNodereq.tokenList = [] by decide

/-- The group that waited behind the first is put after it, -/
def afterPutOfSecond : AppState IdOps.nat := afterFirstPut.after (.putTokenGrp 1 none) (by decide)

/-- and was called back once by then. -/
theorem groups_drain_two_gets :
    ∃ puts, Run (managerSystem IdOps.nat) afterSecondGet puts afterPutOfSecond ∧ puts.length = 2 ∧
      ∃ g ∈ afterSecondGet.manager.groups, g.initNr ≠ 0 ∧ told puts g.gid = [.ok] := by
  have hPut₀ := managerSystem_step afterSecondGet (.putTokenGrp 0 none)
    (show 0 ∈ afterSecondGet.held by decide) (by decide)
  have hPut₁ := managerSystem_step afterFirstPut (.putTokenGrp 1 none)
    (show 1 ∈ afterFirstPut.held by decide) (by decide)
  have hPutRun := (Run.nil.snoc hPut₀).snoc hPut₁
  obtain ⟨tr, hRun, hOrderly, hTurn⟩ := orderly_two_gets
  obtain ⟨-, -, hDrained⟩ := groups_drain freshApp_initial hRun hOrderly hTurn hPutRun
    (forall_snoc (forall_snoc (by simp) ⟨0, rfl⟩) ⟨1, rfl⟩)
  obtain ⟨g, hg, hne⟩ : ∃ g ∈ afterSecondGet.manager.groups, g.initNr ≠ 0 := by decide
  have hTold := (hDrained (by decide)).1 g hg
  rw [if_neg hne] at hTold
  exact ⟨_, hPutRun, rfl, g, hg, hne, hTold⟩

end TwoGets

end DatastorQos
