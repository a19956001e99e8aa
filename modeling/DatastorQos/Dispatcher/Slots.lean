import DatastorQos.Dispatcher.Debt

/-!
# datastor_qos — who is let in by the dispatcher

An app may come online while a slot is free and the pool covers its minimum.
`check_up_app_num` turns it away where `app_num_cur + 1 < app_num_max`, that is
where more than one slot is free.

* `node_admission_iff` — `online` answers rightly exactly in the states of
  `TellsRoom`, and a run keeps to the slots with right answers exactly if it
  meets it at every `online`;
* `free_slot_is_refused` — the first of two slots.
-/

namespace DatastorQos

open Runs

namespace TokenGlobal

variable {tokens : TokenGlobal} {node : AppNode}

/-- A slot is free, and the pool covers the minimum of one more app. -/
def HasRoom (tokens : TokenGlobal) : Prop :=
  tokens.appNumCur < tokens.appNumMax ∧
    tokens.tokenUsedStatic.toNat + tokens.defaultTokenMin.toNat ≤ tokens.tokenTotal.toNat

/-- The node is let in exactly if there is room, and a node that is refused
changes nothing. -/
def AnswersRight (tokens : TokenGlobal) (node : AppNode) : Prop :=
  ∃ tokens' node' err, tokens.online node = some (tokens', node', err) ∧
    (err = .ok ↔ tokens.HasRoom) ∧ (err ≠ .ok → tokens' = tokens ∧ node' = node)

/-- The two comparisons that `check_up_app_num` makes tell whether there is
room. -/
structure TellsRoom (tokens : TokenGlobal) : Prop where
  -- with several slots free all are refused: the pool must not have enough
  several : tokens.appNumCur.toNat + 1 < tokens.appNumMax.toNat →
    tokens.tokenTotal.toNat < tokens.tokenUsedStatic.toNat + tokens.defaultTokenMin.toNat
  -- for the last slot the pool decides: the sum must not wrap below it
  last : tokens.appNumCur.toNat + 1 = tokens.appNumMax.toNat →
    tokens.tokenUsedStatic.toNat + tokens.defaultTokenMin.toNat < 2 ^ 64 ∨
      tokens.tokenTotal < tokens.tokenUsedStatic + tokens.defaultTokenMin
  -- without a free slot the pool decides as well, unless the count wraps
  full : tokens.appNumMax ≤ tokens.appNumCur →
    tokens.appNumCur + 1 < tokens.appNumMax ∨
      tokens.tokenTotal < tokens.tokenUsedStatic + tokens.defaultTokenMin

theorem checkUpAppNum_ok_iff (tokens : TokenGlobal) : tokens.checkUpAppNum.2 = .ok ↔
    ¬ tokens.appNumCur + 1 < tokens.appNumMax ∧
      ¬ tokens.tokenTotal < tokens.tokenUsedStatic + tokens.defaultTokenMin := by
  unfold checkUpAppNum
  split
  · rename_i hRefused
    exact iff_of_false (by simp) (not_and_or.mpr (by rwa [not_not, not_not]))
  · rename_i hLetIn
    exact iff_of_true rfl (not_or.mp hLetIn)

/-- The answer is that of `check_up_app_num`. -/
theorem answersRight_iff_check (hFresh : node.tokenQuota = 0) :
    tokens.AnswersRight node ↔ (tokens.checkUpAppNum.2 = .ok ↔ tokens.HasRoom) := by
  unfold AnswersRight
  rw [tokens.online_fresh hFresh]
  by_cases hCheck : tokens.checkUpAppNum.2 = .ok
  · rw [if_pos hCheck]
    constructor
    · rintro ⟨tokens', node', err, heq, hAnswer, -⟩
      obtain ⟨-, -, rfl⟩ := by simpa only [Option.some.injEq, Prod.mk.injEq] using heq
      exact (iff_of_true hCheck rfl).trans hAnswer
    · intro hAnswer
      exact ⟨_, _, _, rfl, (iff_of_true rfl hCheck).trans hAnswer, fun h => absurd rfl h⟩
  · rw [if_neg hCheck]
    constructor
    · rintro ⟨tokens', node', err, heq, hAnswer, -⟩
      obtain ⟨-, -, rfl⟩ := by simpa only [Option.some.injEq, Prod.mk.injEq] using heq
      exact (iff_of_false hCheck (by simp)).trans hAnswer
    · intro hAnswer
      exact ⟨_, _, _, rfl, (iff_of_false (by simp) hCheck).trans hAnswer, fun _ => ⟨rfl, rfl⟩⟩

/-- **One answer** of `online`. -/
theorem answersRight_iff (hFresh : node.tokenQuota = 0) :
    tokens.AnswersRight node ↔ tokens.TellsRoom := by
  rw [answersRight_iff_check hFresh, checkUpAppNum_ok_iff, HasRoom]
  have hSum := BitVec.toNat_add tokens.tokenUsedStatic tokens.defaultTokenMin
  have hCount : (tokens.appNumCur + 1).toNat = (tokens.appNumCur.toNat + 1) % 2 ^ 64 :=
    BitVec.toNat_add _ _
  have hMax := tokens.appNumMax.isLt
  have hTotal := tokens.tokenTotal.isLt
  constructor
  · intro h
    constructor <;> intro hSlots <;> simp only [BitVec.lt_def, BitVec.le_def] at * <;> omega
  · rintro ⟨hSeveral, hLast, hFull⟩
    simp only [BitVec.lt_def, BitVec.le_def] at *
    omega

end TokenGlobal

-- ---------------------------------------------------------------------------
-- Runs
-- ---------------------------------------------------------------------------

/-- There are no more apps than slots, and a new app gets the right answer. -/
structure AdmissionRight (x : TokenTransition) : Prop where
  within : x.post.tokens.appNumCur ≤ x.post.tokens.appNumMax
  answer : ∀ node, x.act = .online node → x.pre.tokens.AnswersRight node

/-- An `online` comes where its comparisons tell whether there is room. -/
def TokenCall.TellsRoom (tokens : TokenGlobal) : TokenCall → Prop
  | .online _ => tokens.TellsRoom
  | _ => True

variable {s s' : TokenState} {call : TokenCall}

/-- **One call** with no more apps than slots. -/
theorem admission_step_iff (hWithin : s.tokens.appNumCur ≤ s.tokens.appNumMax)
    (hStep : tokenSystem.step s call s') :
    AdmissionRight ⟨s, call, s'⟩ ↔ call.TellsRoom s.tokens := by
  obtain ⟨hLegal, hApply⟩ := hStep
  by_cases hOnline : ∃ node, call = .online node
  · obtain ⟨node, rfl⟩ := hOnline
    have hAnswers : s.tokens.AnswersRight node ↔ s.tokens.TellsRoom :=
      TokenGlobal.answersRight_iff hLegal
    constructor
    · exact fun h => hAnswers.mp (h.answer node rfl)
    · intro hTells
      have hAnswer := hAnswers.mpr hTells
      refine ⟨?_, fun node' hEq => ?_⟩
      · have hCheck := (TokenGlobal.answersRight_iff_check hLegal).mp hAnswer
        obtain ⟨res, hOnline, rfl⟩ := Option.map_eq_some_iff.mp hApply
        rw [s.tokens.online_fresh hLegal] at hOnline
        split at hOnline <;> obtain rfl := Option.some.inj hOnline
        · -- there was a slot for the new app
          have hSlot := (hCheck.mp ‹_›).1
          show s.tokens.appNumCur + 1 ≤ s.tokens.appNumMax
          bv_omega
        · exact hWithin
      · obtain rfl := TokenCall.online.inj hEq
        exact hAnswer
  · rw [not_exists] at hOnline
    refine iff_of_true ⟨?_, fun node hEq => absurd hEq (hOnline node)⟩ ?_
    · by_cases hOffline : ∃ node, call = .offline node
      · obtain ⟨node, rfl⟩ := hOffline
        obtain ⟨⟨tokens', node'⟩, hOffline, rfl⟩ := Option.map_eq_some_iff.mp hApply
        obtain ⟨hCur, hGo⟩ := TokenGlobal.letGo_of_offline hOffline
        show tokens'.appNumCur ≤ tokens'.appNumMax
        rw [hGo]
        show s.tokens.appNumCur - 1 ≤ s.tokens.appNumMax
        bv_omega
      · obtain ⟨hCur, hMax, -⟩ := TokenCall.keeps_apps hOnline (not_exists.mp hOffline) hApply
        rw [hCur, hMax]
        exact hWithin
    · cases call with
      | online node => exact absurd rfl (hOnline node)
      | _ => trivial

/-- **Node admission**: one `online` of a new app answers rightly exactly in the
states that tell whether there is room, and a run has right answers and no more
apps than slots exactly if each `online` of it comes in such a state. -/
theorem node_admission_iff {s₀ : TokenState} {tr : List TokenTransition}
    (hInit : tokenSystem.init s₀) (hRun : Run tokenSystem s₀ tr s) :
    (∀ (tokens : TokenGlobal) (node : AppNode), node.tokenQuota = 0 →
      (tokens.AnswersRight node ↔ tokens.TellsRoom)) ∧
    ((∀ x ∈ tr, AdmissionRight x) ↔ ∀ x ∈ tr, x.act.TellsRoom x.pre.tokens) := by
  refine ⟨fun tokens node hFresh => TokenGlobal.answersRight_iff hFresh, ?_⟩
  obtain ⟨maxNodeNr, minPerNode, rfl⟩ := hInit
  refine (hRun.forall_iff (I := fun t => t.tokens.appNumCur ≤ t.tokens.appNumMax)
    (fun t call u hWithin hStep => ?_) (BitVec.le_def.mpr (Nat.zero_le _))).1
  exact ⟨admission_step_iff hWithin hStep, fun h => h.within⟩

section TwoSlots

/-- One app comes online, into the only slot. -/
theorem node_admission_one_app :
    AdmissionRight ⟨noApps 20 0, .online (appWithoutTokens 0), (noApps 20 0).owe 0⟩ := by
  refine (node_admission_iff ⟨1, 10, rfl⟩ run_oneAppRun).2.mpr ?_ _
    (List.mem_cons_of_mem _ (List.mem_cons_of_mem _ (List.mem_singleton_self _)))
  simp only [oneAppRun, List.forall_mem_cons, TokenCall.TellsRoom]
  refine ⟨trivial, trivial, ⟨?_, ?_, ?_⟩, by simp⟩ <;> decide

/-- Two slots are free, and 100 tokens: an app that needs 10 is refused. -/
theorem free_slot_is_refused :
    ¬ ∀ (tokens : TokenGlobal) (node : AppNode), node.tokenQuota = 0 → tokens.AnswersRight node := by
  intro hAlways
  have hAnswer := hAlways ((TokenGlobal.init 2 10).increase 100) (appWithoutTokens 0) rfl
  have hCheck := (TokenGlobal.answersRight_iff_check rfl).mp hAnswer
  exact absurd (hCheck.mpr ⟨by decide, by decide⟩) (by decide)

end TwoSlots

end DatastorQos
