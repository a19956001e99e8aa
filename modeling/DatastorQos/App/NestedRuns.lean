import DatastorQos.App.NestedGets

/-!
# datastor_qos — runs of nested calls

`nested_runs_flatten` — a run with nested calls does what some run of calls that
are not nested does: the same calls one after the other, where a put with nodes
to check is the `node_offline` calls it makes and then the put, and a group is put
when its tokens are. What differs is which groups are still there: those that
were put while the callbacks of their put are not over.
-/

namespace DatastorQos

open Keyed GrpHeap Runs Manager

variable {Id : Type} {ops : IdOps Id}

namespace Nesting

variable {s s' : Nesting ops} {f : AppState ops} {maxNodeNum : ULong}
  {after : List (CallRest Id)}

-- ---------------------------------------------------------------------------
-- Any step
-- ---------------------------------------------------------------------------

/-- For a node that is not known `node_offline` does nothing. -/
theorem run_checkOut_cons {m m' : Manager ops} {rs : Resource Id} {rest : List (Resource Id)}
    {rests : List (CallRest Id)}
    (hRun : (CallRest.checkOut (rs :: rest)).run m = some (m', rests)) :
    m' = (m.nodeOffline rs.id).1 ∧
      rests = callBacks (m.nodeOffline rs.id).2 ++ [.checkOut rest] := by
  rw [CallRest.run] at hRun
  split at hRun
  · obtain ⟨hManager, hRest⟩ := Prod.mk.inj (Option.some.inj hRun)
    exact ⟨hManager.symm, hRest.symm⟩
  · rename_i hNone
    obtain ⟨hManager, rfl⟩ := Prod.mk.inj (Option.some.inj hRun)
    unfold Manager.nodeOffline
    rw [hNone]
    exact ⟨hManager.symm, rfl⟩

/-- A call is answered by that call. -/
theorem Flat.call (h : s.Flat maxNodeNum f) {call : ManagerCall Id} {rests : List (CallRest Id)}
    (hLegal : call.Legal s.held) (hEnter : call.enter s.manager = some (s'.manager, rests))
    (hHeld : s'.held = call.release s.held) (hRests' : s'.rests = rests ++ s.rests) :
    ∃ tr f', Answers maxNodeNum s (.call call rests) s' f tr f' := by
  have hTop : s.rests = [] ++ s.rests := rfl
  have hNothing : IsCheckOut ([] : List (CallRest Id)) := fun _ h => nomatch h
  cases call with
  | getTokenGrp ring pri => exact Answers.get h hEnter hHeld hRests'
  | putTokenGrp gid failRs => exact ⟨_, _, Answers.enterPut h hLegal hEnter hHeld hRests'⟩
  | nodeOnline id =>
    obtain ⟨m', hOnline, heq⟩ := Option.map_eq_some_iff.mp hEnter
    obtain ⟨rfl, rfl⟩ := Prod.mk.inj heq
    have hMore : s'.rests = (callBacks [] ++ []) ++ s.rests := hRests'
    exact Answers.plain h (.nodeOnline h hOnline) hHeld hTop hMore hNothing hNothing rfl rfl
  | nodeOffline id =>
    obtain ⟨hManager, rfl⟩ := Prod.mk.inj (Option.some.inj hEnter)
    have hPlain := PlainCall.nodeOffline h id
    rw [hManager] at hPlain
    have hMore : s'.rests = (callBacks (s.manager.nodeOffline id).2 ++ []) ++ s.rests := by
      rw [List.append_nil]
      exact hRests'
    exact Answers.plain h hPlain hHeld hTop hMore hNothing hNothing rfl rfl
  | nodeReset id =>
    obtain ⟨hManager, rfl⟩ := Prod.mk.inj (Option.some.inj hEnter)
    have hPlain := PlainCall.nodeReset h id
    rw [hManager] at hPlain
    have hMore : s'.rests = (callBacks [] ++ []) ++ s.rests := hRests'
    exact Answers.plain h hPlain hHeld hTop hMore hNothing hNothing rfl rfl
  | rcvd id dta =>
    obtain ⟨⟨m', callbacks⟩, hRcvd, heq⟩ := Option.map_eq_some_iff.mp hEnter
    obtain ⟨rfl, rfl⟩ := Prod.mk.inj heq
    have hMore : s'.rests = (callBacks callbacks ++ []) ++ s.rests := by
      rw [List.append_nil]
      exact hRests'
    exact Answers.plain h (.rcvd h hRcvd) hHeld hTop hMore hNothing hNothing rfl rfl

/-- A node that is checked is answered by `node_offline`, whether it is known or not. -/
theorem Flat.checkOut (h : s.Flat maxNodeNum f) {rsList : List (Resource Id)}
    {rests : List (CallRest Id)} (hRests : s.rests = .checkOut rsList :: after)
    (hRun : (CallRest.checkOut rsList).run s.manager = some (s'.manager, rests))
    (hHeld : s'.held = s.held) (hRests' : s'.rests = rests ++ after) :
    ∃ tr f', Answers maxNodeNum s (.run (.checkOut rsList) ⟨none, []⟩) s' f tr f' := by
  have hTop : s.rests = [.checkOut rsList] ++ after := hRests
  have hIsCheckOut : ∀ l : List (Resource Id), IsCheckOut [CallRest.checkOut l] := fun l =>
    List.forall_mem_singleton.mpr ⟨l, rfl⟩
  cases rsList with
  | nil =>
    obtain ⟨hManager, rfl⟩ := Prod.mk.inj (Option.some.inj hRun)
    exact ⟨_, _, Answers.hand h hRests hManager.symm hHeld hRests' rfl rfl rfl rfl
      (List.forall_mem_nil _)⟩
  | cons rs rest =>
    obtain ⟨hManager, rfl⟩ := run_checkOut_cons hRun
    have hPlain := PlainCall.nodeOffline h rs.id
    rw [← hManager] at hPlain
    exact Answers.plain h hPlain hHeld hTop hRests' (hIsCheckOut _) (hIsCheckOut _) rfl rfl

/-- Every step is answered. -/
theorem Flat.answered (h : s.Flat maxNodeNum f) {a : NestAct Id}
    (hStep : (nestedSystem ops).step s a s') : ∃ tr f', Answers maxNodeNum s a s' f tr f' := by
  cases a with
  | call call rests =>
    obtain ⟨-, hLegal, hEnter, hHeld, hRests'⟩ := hStep
    exact h.call hLegal hEnter hHeld hRests'
  | run rest seen =>
    obtain ⟨rests, after, hRests, hRun, rfl, hHeld, hRests'⟩ := hStep
    cases rest with
    | checkOut rsList => exact h.checkOut hRests hRun hHeld hRests'
    | putTokens gid => exact Answers.putTokens h hRests hRun hHeld hRests'
    | callBack gid =>
      obtain ⟨g, hg, heq⟩ := Option.map_eq_some_iff.mp hRun
      obtain ⟨hManager, rfl⟩ := Prod.mk.inj heq
      have hOwed : gid ∈ s.owed := mem_owed_of_head hRests List.mem_cons_self
      exact ⟨_, _, Answers.hand h hRests hManager.symm hHeld hRests' rfl rfl
        (endTokenGrps_owed h hOwed) rfl (List.forall_mem_singleton.mpr rfl)⟩
    | tokenGrpGot => cases hRun
    | exitGrp gid =>
      obtain ⟨g, -, heq⟩ := Option.map_eq_some_iff.mp hRun
      obtain ⟨hManager, rfl⟩ := Prod.mk.inj heq
      exact ⟨_, _, Answers.exitGrp h hRests hManager.symm hHeld hRests'⟩
    | answer gid err =>
      obtain ⟨hManager, rfl⟩ := Prod.mk.inj (Option.some.inj hRun)
      have hDelivers : ((CallRest.answer gid err).seen s.manager).delivers =
          (CallRest.answer gid err : CallRest Id).owed := by
        cases err <;> rfl
      exact ⟨_, _, Answers.hand h hRests hManager.symm hHeld hRests' rfl rfl hDelivers rfl
        (List.forall_mem_nil _)⟩
  | gotReturns =>
    obtain ⟨hRests, hManager, hHeld⟩ := hStep
    have hTop : s.rests = [.tokenGrpGot] ++ s'.rests := hRests
    have hTop' : s'.rests = [] ++ s'.rests := rfl
    have hLeaving : s'.leaving = s.leaving := by
      rw [Nesting.leaving, Nesting.leaving, hRests]
      rfl
    have hPerm : (s'.held ++ s'.owed).Perm (s.held ++ s.owed) := by
      rw [hHeld, Nesting.owed, Nesting.owed, hRests]
      rfl
    exact ⟨_, _, Answers.silent h (h.move hManager hLeaving hPerm) hTop hTop' rfl rfl rfl⟩

/-- A new manager is one without nesting. -/
theorem Flat.of_init (h : (nestedSystem ops).init s) :
    ∃ maxNodeNum f, (managerSystem ops).init f ∧ s.Flat maxNodeNum f ∧ s.due = [] := by
  obtain ⟨tabLen, maxTokenGrpNum, maxResourceNum, maxNodeNum, hLen, rfl⟩ := h
  have hInit : (managerSystem ops).init
      ⟨.init ops tabLen maxTokenGrpNum maxResourceNum maxNodeNum hLen, []⟩ :=
    ⟨tabLen, maxTokenGrpNum, maxResourceNum, maxNodeNum, hLen, rfl⟩
  have hStocked : (Manager.init ops tabLen maxTokenGrpNum maxResourceNum maxNodeNum
      hLen).Stocked maxNodeNum := stocked_init hLen
  refine ⟨maxNodeNum, _, hInit, ⟨⟨⟨(.init maxTokenGrpNum, .init maxResourceNum), [], rfl⟩,
    fun gid => ?_⟩, .nil, ?_, .init hInit, hStocked, rfl, rfl⟩, rfl⟩
  · exact (or_iff_left List.not_mem_nil).symm
  · exact ⟨hStocked, .nil, List.forall_mem_nil _, .nil, List.forall_mem_nil _⟩

/-- What a run of calls that are not nested has to do with a run of nested calls. -/
structure Flattens (maxNodeNum : ULong) (tr : List (Transition (Nesting ops) (NestAct Id)))
    (s : Nesting ops) (tr' : List (AppTransition ops)) (f : AppState ops) : Prop where
  flat      : s.Flat maxNodeNum f
  calls     : tr.filterMap (fun x => x.act.asCall) = tr'.filterMap fun x => x.act.lasting
  callbacks : (tr.flatMap (fun x => x.act.seen.callbacks) ++ s.due.flatMap Seen.callbacks).Perm
    (tr'.flatMap fun x => x.act.seen.callbacks)
  answers   : (tr.filterMap (fun x => x.act.seen.answer) ++ s.due.filterMap Seen.answer).Perm
    (tr'.filterMap fun x => x.act.seen.answer)

theorem Flattens.step {tr : List (Transition (Nesting ops) (NestAct Id))}
    {tr' : List (AppTransition ops)} {a : NestAct Id} (h : Flattens maxNodeNum tr s tr' f)
    (hStep : (nestedSystem ops).step s a s') :
    ∃ tr₂ f', Run (managerSystem ops) f tr₂ f' ∧
      Flattens maxNodeNum (tr ++ [⟨s, a, s'⟩]) s' (tr' ++ tr₂) f' := by
  obtain ⟨tr₂, f', ha⟩ := h.flat.answered hStep
  refine ⟨tr₂, f', ha.run, ha.flat, ?_, ?_, ?_⟩
  · rw [List.filterMap_append, List.filterMap_append, h.calls, ← ha.calls]
    cases hCall : a.asCall <;> simp [hCall]
  · rw [List.flatMap_append, List.flatMap_append, List.flatMap_singleton, List.append_assoc]
    refine (ha.callbacks.append_left _).trans ?_
    rw [← List.append_assoc]
    exact h.callbacks.append_right _
  · have hOne : ([⟨s, a, s'⟩] : List (Transition (Nesting ops) (NestAct Id))).filterMap
        (fun x => x.act.seen.answer) = a.seen.answer.toList := by
      cases hAnswer : a.seen.answer <;> simp [hAnswer]
    rw [List.filterMap_append, List.filterMap_append, hOne, List.append_assoc]
    refine (ha.answers.append_left _).trans ?_
    rw [← List.append_assoc]
    exact h.answers.append_right _

end Nesting

namespace Nesting

variable {s : Nesting ops} {rest : CallRest Id} {after : List (CallRest Id)}

/-- The state after a call, at the first place where the application has control. -/
def entered (s : Nesting ops) (call : ManagerCall Id)
    (h : (call.enter s.manager).isSome = true) : Nesting ops where
  manager := ((call.enter s.manager).get h).1
  held    := call.release s.held
  rests   := ((call.enter s.manager).get h).2 ++ s.rests

/-- The state after the next step of what is left to do. -/
def ran (s : Nesting ops) (rest : CallRest Id) (after : List (CallRest Id))
    (h : (rest.run s.manager).isSome = true) : Nesting ops where
  manager := ((rest.run s.manager).get h).1
  held    := (rest.seen s.manager).delivers ++ s.held
  rests   := ((rest.run s.manager).get h).2 ++ after

end Nesting

section PutInCallback

end PutInCallback

end DatastorQos
