import DatastorQos.App.Accounting

/-!
# datastor_qos — one verdict for each group

`told tr gid` lists the verdicts the application was called back with for group
`gid` in the run `tr`, and `answered tr gid` the values returned for it.

* `one_verdict` — a get that returns a verdict is never followed by a callback
  for its group; one that returns `QOS_ERROR_PENDING` is followed by at most
  one, made by the very call that settles the group; and the verdict is what
  became of the requests.

The fences play no part in this, so it holds of runs of any length.
-/

namespace DatastorQos

open Keyed GrpHeap Runs

variable {Id : Type} {ops : IdOps Id}

-- ---------------------------------------------------------------------------
-- What the application was told
-- ---------------------------------------------------------------------------

/-- The verdicts a call calls back for a group. -/
def Seen.told (seen : Seen) (gid : GrpPtr) : List QosError :=
  (seen.callbacks.filter fun cb => cb.grp = gid).map Callback.err

/-- The value a call returns for a group. -/
def Seen.answered (seen : Seen) (gid : GrpPtr) : List QosError :=
  (seen.answer.toList.filter fun answer => answer.1 = gid).map Prod.snd

def told (tr : List (AppTransition ops)) (gid : GrpPtr) : List QosError :=
  tr.flatMap (·.act.seen.told gid)

def answered (tr : List (AppTransition ops)) (gid : GrpPtr) : List QosError :=
  tr.flatMap (·.act.seen.answered gid)

@[simp] theorem told_snoc (tr : List (AppTransition ops)) (x : AppTransition ops) (gid : GrpPtr) :
    told (tr ++ [x]) gid = told tr gid ++ x.act.seen.told gid := by
  simp [told]

@[simp] theorem answered_snoc (tr : List (AppTransition ops)) (x : AppTransition ops)
    (gid : GrpPtr) : answered (tr ++ [x]) gid = answered tr gid ++ x.act.seen.answered gid := by
  simp [answered]

/-- The verdict fits the requests of the group, which have all been resolved. -/
structure TokenReqgrp.Verdict (g : TokenReqgrp Id) (err : QosError) : Prop where
  resolved : ∀ r ∈ g.lheadReqgrp, r.stat ≠ .init
  failed   : (∃ r ∈ g.lheadReqgrp, r.stat = .failed) → err = .failedNode
  got      : (∀ r ∈ g.lheadReqgrp, r.stat = .got) → err = .ok

theorem TokenReqgrp.Sound.verdict {g : TokenReqgrp Id} (hs : g.Sound) (hz : g.initNr = 0) :
    g.Verdict g.err where
  resolved := by
    intro r hr hInit
    have := List.countP_eq_zero.mp hz r hr
    simp [hInit] at this
  failed   := by
    intro hFailed
    rw [hs.err_eq, if_pos hz]
    unfold TokenReqgrp.verdictFlag
    rw [hs.failed_iff.mpr hFailed]
    rfl
  got      := by
    intro hGot
    rw [hs.err_eq, if_pos hz]
    unfold TokenReqgrp.verdictFlag
    rw [if_neg]
    intro hFlag
    obtain ⟨r, hr, hFailed⟩ := hs.failed_iff.mp hFlag
    rw [hGot r hr] at hFailed
    cases hFailed

-- ---------------------------------------------------------------------------
-- One call
-- ---------------------------------------------------------------------------

/-- A group is called back once if the call settles it. -/
theorem Fate.told_known {m m' : Manager ops} {seen : Seen} (hf : Fate m seen.callbacks m')
    {gid : GrpPtr} {g g' : TokenReqgrp Id} (hg : m.record? gid = some g)
    (hg' : m'.record? gid = some g') :
    seen.told gid = if g.initNr ≠ 0 ∧ g'.initNr = 0 then [g'.err] else [] := by
  obtain ⟨g₁, hg₁, -, hCount⟩ := hf.kept gid g hg
  obtain rfl := Option.some.inj (hg'.symm.trans hg₁)
  have hLength : (seen.told gid).length = if g.initNr ≠ 0 ∧ g'.initNr = 0 then 1 else 0 := by
    rw [← hCount, Seen.told, List.length_map, List.countP_eq_length_filter]
  have hErr : ∀ err ∈ seen.told gid, err = g'.err := by
    intro err herr
    obtain ⟨cb, hcb, rfl⟩ := List.mem_map.mp herr
    obtain ⟨hcb, hgrp⟩ := List.mem_filter.mp hcb
    obtain ⟨-, g₂, hg₂, -, heq⟩ := hf.carries cb hcb
    rw [of_decide_eq_true hgrp, hg'] at hg₂
    rw [heq, Option.some.inj hg₂]
  rw [List.eq_replicate_of_mem hErr, hLength]
  split <;> rfl

theorem Fate.told_unknown {m m' : Manager ops} {seen : Seen} (hf : Fate m seen.callbacks m')
    {gid : GrpPtr} (hNone : m.record? gid = none) : seen.told gid = [] := by
  rw [Seen.told, List.map_eq_nil_iff, List.filter_eq_nil_iff]
  intro cb hcb hgrp
  obtain ⟨hSome, -⟩ := hf.carries cb hcb
  rw [of_decide_eq_true hgrp, hNone] at hSome
  cases hSome

theorem Seen.answered_of_ne {seen : Seen} {gid : GrpPtr}
    (hne : ∀ err, seen.answer ≠ some (gid, err)) : seen.answered gid = [] := by
  unfold Seen.answered
  rw [List.map_eq_nil_iff, List.filter_eq_nil_iff]
  rintro ⟨gid', err⟩ hmem hgid
  rw [Option.mem_toList] at hmem
  exact hne err (of_decide_eq_true hgid ▸ hmem)

theorem Seen.answered_of_eq {seen : Seen} {gid : GrpPtr} {err : QosError}
    (heq : seen.answer = some (gid, err)) : seen.answered gid = [err] := by
  simp [Seen.answered, heq]

-- ---------------------------------------------------------------------------
-- A run
-- ---------------------------------------------------------------------------

/-- What was said of a group with record `g`: one answer, and then one callback
if the answer was no verdict and the group is settled now. -/
def History (answers callbacks : List QosError) (g : TokenReqgrp Id) : Prop :=
  (answers = [.pending] ∧ callbacks = if g.initNr = 0 then [g.err] else []) ∨
    (g.initNr = 0 ∧ g.err ≠ .pending ∧ answers = [g.err] ∧ callbacks = [])

/-- What was said of all groups over a run that ends in `m`. -/
structure Told (tr : List (AppTransition ops)) (m : Manager ops) : Prop where
  unknown : ∀ gid, m.record? gid = none → answered tr gid = [] ∧ told tr gid = []
  known   : ∀ gid g, m.record? gid = some g → History (answered tr gid) (told tr gid) g

theorem Told.step {tr : List (AppTransition ops)} {x : AppTransition ops}
    (hTold : Told tr x.pre.manager)
    (hf : StepFate x.pre.manager x.act.seen x.post.manager) : Told (tr ++ [x]) x.post.manager where
  unknown := by
    intro gid hNone
    have hPre : x.pre.manager.record? gid = none := by
      refine Option.eq_none_iff_forall_not_mem.mpr fun g hg => ?_
      obtain ⟨g', hg', -⟩ := hf.fate.kept gid g hg
      rw [hNone] at hg'
      cases hg'
    have hne : ∀ err, x.act.seen.answer ≠ some (gid, err) := by
      intro err heq
      obtain ⟨-, g, hg, -⟩ := hf.made gid err heq
      rw [hNone] at hg
      cases hg
    obtain ⟨hAnswered, hCalled⟩ := hTold.unknown gid hPre
    rw [answered_snoc, told_snoc, hAnswered, hCalled, Seen.answered_of_ne hne,
      hf.fate.told_unknown hPre]
    exact ⟨rfl, rfl⟩
  known   := by
    intro gid g' hg'
    cases hPre : x.pre.manager.record? gid with
    | some g =>
      have hne : ∀ err, x.act.seen.answer ≠ some (gid, err) := by
        intro err heq
        rw [(hf.made gid err heq).1] at hPre
        cases hPre
      obtain ⟨g₁, hg₁, hKept, -⟩ := hf.fate.kept gid g hPre
      obtain rfl := Option.some.inj (hg'.symm.trans hg₁)
      rw [answered_snoc, told_snoc, Seen.answered_of_ne hne, hf.fate.told_known hPre hg',
        List.append_nil]
      rcases hTold.known gid g hPre with ⟨hAnswer, hCalled⟩ | ⟨hz, hErr, hAnswer, hCalled⟩
      · refine Or.inl ⟨hAnswer, ?_⟩
        rw [hCalled]
        by_cases hz : g.initNr = 0
        · obtain rfl := hKept hz
          simp [hz]
        · simp [hz]
      · obtain rfl := hKept hz
        exact Or.inr ⟨hz, hErr, hAnswer, by simp [hCalled, hz]⟩
    | none =>
      -- the group was made by this very call
      obtain ⟨err, heq⟩ : ∃ err, x.act.seen.answer = some (gid, err) := by
        by_contra hNot
        rw [hf.known gid hPre fun err heq => hNot ⟨err, heq⟩] at hg'
        cases hg'
      obtain ⟨-, g₁, hg₁, hSound, hErr⟩ := hf.made gid err heq
      obtain rfl := Option.some.inj (hg'.symm.trans hg₁)
      obtain ⟨hAnswered, hCalled⟩ := hTold.unknown gid hPre
      rw [answered_snoc, told_snoc, hAnswered, hCalled, Seen.answered_of_eq heq,
        hf.fate.told_unknown hPre, hErr]
      obtain ⟨hp, hz⟩ | ⟨hz, hAnswer, hVerdict⟩ := TokenReqgrp.answer_cases hSound
      · exact Or.inl ⟨by rw [hp]; rfl, by simp [hz]⟩
      · refine Or.inr ⟨hz, ?_, by rw [hAnswer]; rfl, rfl⟩
        rcases hVerdict with h | h <;> simp [h]

theorem Run.told {s₀ s : AppState ops} {tr : List (AppTransition ops)}
    (hInit : (managerSystem ops).init s₀) (hRun : Run (managerSystem ops) s₀ tr s) :
    Told tr s.manager := by
  induction hRun with
  | nil =>
    obtain ⟨_, _, _, _, _, rfl⟩ := hInit
    exact ⟨fun _ _ => ⟨rfl, rfl⟩, fun gid g hg => by cases hg⟩
  | snoc hRun hStep ih =>
    exact ih.step (step_effect (Run.inv_any hInit hRun) hStep False.elim False.elim).2

/-- The call resolves the last request of the group that was still in `init`. -/
def Resolves (x : AppTransition ops) (gid : GrpPtr) : Prop :=
  (∃ g, x.pre.manager.record? gid = some g ∧ g.initNr ≠ 0) ∧
    ∃ g', x.post.manager.record? gid = some g' ∧ g'.initNr = 0

/-- A call back comes from the call that settles the group, and no other. -/
theorem Fate.told_iff_resolves {x : AppTransition ops}
    (hf : Fate x.pre.manager x.act.seen.callbacks x.post.manager) (gid : GrpPtr) :
    x.act.seen.told gid ≠ [] ↔ Resolves x gid := by
  cases hPre : x.pre.manager.record? gid with
  | none => simp [Resolves, hPre, hf.told_unknown hPre]
  | some g =>
    obtain ⟨g', hg', -⟩ := hf.kept gid g hPre
    simp [Resolves, hPre, hg', hf.told_known hPre hg']

theorem Manager.Records.sound {fenced calm : Prop} {m : Manager ops} (hr : m.Records)
    (hb : m.Books fenced calm [] []) {gid : GrpPtr} {g : TokenReqgrp Id} (hg : m.record? gid = some g) :
    g.Sound := by
  rcases Manager.record?_cases hg with hg | ⟨-, hg⟩
  · exact hb.sound.group g (mem_of_lookup hg)
  · exact (hr.ended gid g hg).2

theorem mem_answered {tr : List (AppTransition ops)} {gid : GrpPtr} {err : QosError} :
    err ∈ answered tr gid ↔ ∃ x ∈ tr, x.act.seen.answer = some (gid, err) := by
  simp [answered, Seen.answered, List.mem_flatMap]

/-- **One verdict.** For every get of a run that makes a group. -/
theorem one_verdict {s₀ s : AppState ops} {tr : List (AppTransition ops)}
    (hInit : (managerSystem ops).init s₀) (hRun : Run (managerSystem ops) s₀ tr s)
    (gid : GrpPtr) (err : QosError) (hGet : ∃ x ∈ tr, x.act.seen.answer = some (gid, err)) :
    (∃ g, s.manager.record? gid = some g ∧
      ((err = .ok ∨ err = .failedNode) ∧ told tr gid = [] ∧ g.Verdict err ∨
        err = .pending ∧ (told tr gid).length ≤ 1 ∧ ∀ e ∈ told tr gid, g.Verdict e)) ∧
      ∀ x ∈ tr, x.act.seen.told gid ≠ [] ↔ Resolves x gid := by
  have hInv := Run.inv_any hInit hRun
  have hTold := Run.told hInit hRun
  constructor
  · rw [← mem_answered] at hGet
    cases hRecord : s.manager.record? gid with
    | none =>
      rw [(hTold.unknown gid hRecord).1] at hGet
      cases hGet
    | some g =>
      have hSound := hInv.records.sound hInv.books hRecord
      refine ⟨g, rfl, ?_⟩
      rcases hTold.known gid g hRecord with ⟨hAnswer, hCalled⟩ | ⟨hz, hErr, hAnswer, hCalled⟩
      · rw [hAnswer, List.mem_singleton] at hGet
        refine Or.inr ⟨hGet, ?_, ?_⟩
        · rw [hCalled]
          split <;> simp
        · intro e he
          rw [hCalled] at he
          split at he
          · rename_i hz
            rw [List.mem_singleton.mp he]
            exact hSound.verdict hz
          · cases he
      · rw [hAnswer, List.mem_singleton] at hGet
        refine Or.inl ⟨?_, hCalled, hGet ▸ hSound.verdict hz⟩
        obtain ⟨-, hNot⟩ | ⟨-, -, hVerdict⟩ := TokenReqgrp.answer_cases hSound
        · exact absurd hz hNot
        · exact hGet ▸ hVerdict
  · refine hRun.forall_transition (I := fun t => t.Inv False False)
      (fun t a u ht hStep => ?_) (AppState.Inv.init hInit)
    have hEffect := step_effect ht hStep False.elim False.elim
    exact ⟨hEffect.1, hEffect.2.fate.told_iff_resolves gid⟩

/-- The second of two gets waits, and is told when the first group is put. -/
theorem one_verdict_after_put :
    ∃ tr g, Run (managerSystem IdOps.nat) freshApp tr afterFirstPut ∧ told tr 1 = [.ok] ∧
      afterFirstPut.manager.record? 1 = some g ∧ g.Verdict .ok := by
  have hRun := ((Run.nil.snoc
    (managerSystem_step freshApp (getOne 1 6) trivial (by decide))).snoc
    (managerSystem_step afterFirstGet (getOne 1 6) trivial (by decide))).snoc
    (managerSystem_step afterSecondGet (.putTokenGrp 0 none)
      (show 0 ∈ afterSecondGet.held by decide) (by decide))
  have hTold := one_verdict freshApp_initial hRun 1 .pending
    ⟨_, List.mem_append_left _ (List.mem_append_right _ (List.mem_singleton_self _)), by decide⟩
  obtain ⟨⟨g, hRecord, hVerdict⟩, -⟩ := hTold
  refine ⟨_, g, hRun, by decide, hRecord, ?_⟩
  rcases hVerdict with ⟨hErr | hErr, -⟩ | ⟨-, -, hVerdict⟩
  · cases hErr
  · cases hErr
  · exact hVerdict .ok (by decide)

end DatastorQos
