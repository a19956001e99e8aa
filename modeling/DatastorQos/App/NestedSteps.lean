import DatastorQos.App.Nesting

/-!
# datastor_qos — nested calls and calls that are not

`AsCalls` relates a state of `nestedSystem` to one of `managerSystem`, where the
groups whose put is not over have left and the application has every verdict that
is known. Each step of nested calls is answered by one call, or by none. Here are
the steps that make no group: calls on nodes, puts, and the steps that nothing
answers.
-/

namespace DatastorQos

open Keyed GrpHeap Runs Manager

variable {Id : Type} {ops : IdOps Id}

-- ---------------------------------------------------------------------------
-- Nested and not nested
-- ---------------------------------------------------------------------------

namespace Nesting

variable {s s' : Nesting ops} {f f' : AppState ops} {maxNodeNum : ULong} {gid : GrpPtr}
  {top new after : List (CallRest Id)}

/-- What the calls are where none is nested: the groups that are leaving have
left, and the application has the verdicts it is still to see. -/
structure AsCalls (s : Nesting ops) (f : AppState ops) : Prop where
  manager : ∃ caches freed, f.manager = s.manager.without s.leaving caches freed
  held    : ∀ gid, gid ∈ f.held ↔ gid ∈ s.held ∨ gid ∈ s.owed

/-- What carries it over a run: every verdict is held or owed once, and both
managers have handed out what is there. -/
structure Flat (maxNodeNum : ULong) (s : Nesting ops) (f : AppState ops) : Prop where
  asCalls   : s.AsCalls f
  nodup     : (s.held ++ s.owed).Nodup
  tidy      : s.manager.Tidy maxNodeNum s.leaving
  inv       : f.Inv False False
  stocked   : f.manager.Stocked maxNodeNum
  tokenGrps : f.manager.tokenGrpCache.cacheUnit = s.manager.tokenGrpCache.cacheUnit
  resources : f.manager.resourceCache.cacheUnit = s.manager.resourceCache.cacheUnit

namespace Flat

theorem groups_eq (h : s.Flat maxNodeNum f) :
    f.manager.groups = s.manager.groups.without s.leaving := by
  obtain ⟨_, _, hManager⟩ := h.asCalls.manager
  rw [hManager]
  rfl

theorem group?_eq (h : s.Flat maxNodeNum f) {g : TokenReqgrp Id}
    (hg : group? f.manager.groups gid = some g) :
    group? s.manager.groups gid = some g ∧ gid ∉ s.leaving := by
  rw [h.groups_eq] at hg
  have hNot := not_mem_of_group?_without hg
  rw [group?_without hNot] at hg
  exact ⟨hg, hNot⟩

/-- Queued requests are of groups that are not leaving. -/
theorem unqueued (h : s.Flat maxNodeNum f) : s.manager.Unqueued s.leaving := by
  obtain ⟨_, _, hManager⟩ := h.asCalls.manager
  intro id n hn rs hrs
  have hNode : f.manager.node? id = some n := by
    rw [hManager]
    exact hn
  obtain ⟨r, hWaits, rfl⟩ := ((h.inv.books.node id n hNode).queued rs).mp hrs
  obtain ⟨g, hg, -⟩ := h.inv.books.sound.group?_of_mem hWaits.mem
  exact (h.group?_eq hg).2

/-- A verdict that is held or owed is of a group that is settled and not leaving. -/
theorem settled (h : s.Flat maxNodeNum f) (hgid : gid ∈ s.held ∨ gid ∈ s.owed) :
    ∃ g, group? s.manager.groups gid = some g ∧ g.initNr = 0 ∧ gid ∉ s.leaving := by
  obtain ⟨g, hg, hz⟩ := (h.inv.held gid).mp ((h.asCalls.held gid).mpr hgid)
  exact ⟨g, (h.group?_eq hg).1, hz, (h.group?_eq hg).2⟩

end Flat

theorem mem_owed_of_head {rest : CallRest Id} (hRests : s.rests = rest :: after)
    (hgid : gid ∈ rest.owed) : gid ∈ s.owed := by
  rw [owed, hRests, List.flatMap_cons]
  exact List.mem_append_left _ hgid

theorem mem_release_congr {l l' : List GrpPtr} (hMem : ∀ gid, gid ∈ l ↔ gid ∈ l')
    (call : ManagerCall Id) (gid : GrpPtr) : gid ∈ call.release l ↔ gid ∈ call.release l' := by
  cases call with
  | putTokenGrp => simp [ManagerCall.release, hMem]
  | _ => exact hMem gid

theorem release_sublist (call : ManagerCall Id) (l : List GrpPtr) :
    (call.release l).Sublist l := by
  cases call with
  | putTokenGrp => exact List.filter_sublist
  | _ => exact .refl l

/-- One call that is not nested keeps the two together. -/
theorem Flat.of_step (h : s.Flat maxNodeNum f) {a : AppAct Id}
    (hStep : (managerSystem ops).step f a f')
    (hManager : ∃ caches freed, f'.manager = s'.manager.without s'.leaving caches freed)
    (hHeld : (s'.held ++ s'.owed).Perm (a.seen.delivers ++ a.call.release (s.held ++ s.owed)))
    (hTidy : s'.manager.Tidy maxNodeNum s'.leaving)
    (hTokenGrps : f'.manager.tokenGrpCache.cacheUnit = s'.manager.tokenGrpCache.cacheUnit)
    (hResources : f'.manager.resourceCache.cacheUnit = s'.manager.resourceCache.cacheUnit) :
    s'.Flat maxNodeNum f' := by
  have hOld : ∀ gid, gid ∈ s.held ++ s.owed ↔ gid ∈ f.held := fun gid => by
    rw [List.mem_append, h.asCalls.held]
  obtain ⟨hInv, hFate⟩ := step_effect h.inv hStep False.elim False.elim
  obtain ⟨hNodup, hNew⟩ := delivers_new h.inv hFate
  obtain ⟨res, hApply, hStocked⟩ := apply_stocked h.inv h.stocked a.call
  obtain rfl := Option.some.inj (hApply.symm.trans hStep.2.1)
  refine ⟨⟨hManager, fun gid => ?_⟩, ?_, hTidy, hInv, hStocked, hTokenGrps, hResources⟩
  · rw [hStep.2.2, ← List.mem_append, hHeld.mem_iff, List.mem_append, List.mem_append,
      mem_release_congr hOld]
  · refine hHeld.nodup_iff.mpr (List.nodup_append.mpr
      ⟨hNodup, h.nodup.sublist (release_sublist _ _), ?_⟩)
    rintro gid hgid _ hOwn rfl
    exact hNew gid hgid ((hOld gid).mp ((release_sublist _ _).subset hOwn))

/-- What the steps `tr` without nesting answer to step `a` of nested calls. -/
structure Answers (maxNodeNum : ULong) (s : Nesting ops) (a : NestAct Id) (s' : Nesting ops)
    (f : AppState ops) (tr : List (AppTransition ops)) (f' : AppState ops) : Prop where
  run       : Run (managerSystem ops) f tr f'
  flat      : s'.Flat maxNodeNum f'
  calls     : a.asCall.toList = tr.filterMap fun x => x.act.lasting
  callbacks : (a.seen.callbacks ++ s'.due.flatMap Seen.callbacks).Perm
    (s.due.flatMap Seen.callbacks ++ tr.flatMap fun x => x.act.seen.callbacks)
  answers   : (a.seen.answer.toList ++ s'.due.filterMap Seen.answer).Perm
    (s.due.filterMap Seen.answer ++ tr.filterMap fun x => x.act.seen.answer)

/-- What is left of the outer calls is to show the application what it was to
show it before. -/
theorem due_eq (h : s.Flat maxNodeNum f) (h' : s'.Flat maxNodeNum f')
    (hSame : ∀ gid ∈ f.held, gid ∈ f'.held →
      group? f'.manager.groups gid = group? f.manager.groups gid)
    (hRests : s.rests = top ++ after) (hRests' : s'.rests = new ++ after) :
    after.map (CallRest.seen s'.manager) = after.map (CallRest.seen s.manager) := by
  refine List.map_congr_left fun rest hRest => ?_
  cases rest with
  | callBack gid =>
    have hOwed : gid ∈ s.owed := by
      rw [owed, hRests]
      exact List.mem_flatMap.mpr ⟨_, List.mem_append_right _ hRest, List.mem_singleton_self _⟩
    have hOwed' : gid ∈ s'.owed := by
      rw [owed, hRests']
      exact List.mem_flatMap.mpr ⟨_, List.mem_append_right _ hRest, List.mem_singleton_self _⟩
    have hHeld := (h.asCalls.held gid).mpr (Or.inr hOwed)
    have hHeld' := (h'.asCalls.held gid).mpr (Or.inr hOwed')
    obtain ⟨g, hg, -⟩ := (h.inv.held gid).mp hHeld
    have hg' := (hSame gid hHeld hHeld').trans hg
    simp only [CallRest.seen, endTokenGrps_singleton (h.group?_eq hg).1,
      endTokenGrps_singleton (h'.group?_eq hg').1]
  | _ => rfl

/-- A step that nothing answers where calls are not nested. -/
theorem Answers.silent {a : NestAct Id} (h : s.Flat maxNodeNum f) (h' : s'.Flat maxNodeNum f)
    (hRests : s.rests = top ++ after) (hRests' : s'.rests = new ++ after) (hCall : a.asCall = none)
    (hCallbacks : a.seen.callbacks ++ (new.map (CallRest.seen s'.manager)).flatMap Seen.callbacks =
      (top.map (CallRest.seen s.manager)).flatMap Seen.callbacks)
    (hAnswers : a.seen.answer.toList ++ (new.map (CallRest.seen s'.manager)).filterMap Seen.answer =
      (top.map (CallRest.seen s.manager)).filterMap Seen.answer) :
    Answers maxNodeNum s a s' f [] f := by
  have hDue := due_eq h h' (fun _ _ _ => rfl) hRests hRests'
  refine ⟨Run.nil, h', by rw [hCall]; rfl, ?_, ?_⟩
  · rw [due, due, hRests, hRests', List.map_append, List.map_append, hDue, List.flatMap_append,
      List.flatMap_append, ← List.append_assoc, hCallbacks, List.flatMap_nil, List.append_nil]
  · rw [due, due, hRests, hRests', List.map_append, List.map_append, hDue, List.filterMap_append,
      List.filterMap_append, ← List.append_assoc, hAnswers, List.filterMap_nil, List.append_nil]

/-- A step that one call answers. What was to be done for it showed nothing, and
what is left of it is to show what the call shows. -/
theorem Answers.one {a : NestAct Id} {b : AppAct Id} (h : s.Flat maxNodeNum f)
    (hStep : (managerSystem ops).step f b f') (h' : s'.Flat maxNodeNum f')
    (hRests : s.rests = top ++ after) (hRests' : s'.rests = new ++ after)
    (hCall : a.asCall = b.lasting) (hSeen : a.seen = ⟨none, []⟩)
    (hTop : ∀ rest ∈ top, rest.seen s.manager = ⟨none, []⟩)
    (hCallbacks : (new.map (CallRest.seen s'.manager)).flatMap Seen.callbacks = b.seen.callbacks)
    (hAnswers : (new.map (CallRest.seen s'.manager)).filterMap Seen.answer =
      b.seen.answer.toList) :
    Answers maxNodeNum s a s' f [⟨f, b, f'⟩] f' := by
  obtain ⟨hInv, hFate⟩ := step_effect h.inv hStep False.elim False.elim
  have hDue := due_eq h h' (fun _ => group?_of_held h.inv hInv hFate) hRests hRests'
  have hTopCallbacks := callbacks_quiet hTop
  have hTopAnswers := answers_quiet hTop
  refine ⟨Run.single hStep, h', ?_, ?_, ?_⟩
  · rw [hCall]
    cases h : b.lasting <;> simp [h]
  · rw [due, due, hRests, hRests', List.map_append, List.map_append, hDue, List.flatMap_append,
      List.flatMap_append, hCallbacks, hTopCallbacks, hSeen, List.nil_append, List.nil_append,
      List.flatMap_singleton]
    exact List.perm_append_comm
  · have hOne : ([⟨f, b, f'⟩] : List (AppTransition ops)).filterMap (fun x => x.act.seen.answer) =
        b.seen.answer.toList := by
      cases h : b.seen.answer <;> simp [h]
    rw [due, due, hRests, hRests', List.map_append, List.map_append, hDue, List.filterMap_append,
      List.filterMap_append, hAnswers, hTopAnswers, hSeen, hOne, List.nil_append]
    change (b.seen.answer.toList ++ _).Perm _
    exact List.perm_append_comm

-- ---------------------------------------------------------------------------
-- Calls that make no group
-- ---------------------------------------------------------------------------

/-- What `check_node_out_when_put` has still to do, if anything. -/
def IsCheckOut (rests : List (CallRest Id)) : Prop :=
  ∀ rest ∈ rests, ∃ rsList, rest = .checkOut rsList

theorem IsCheckOut.owed (h : IsCheckOut top) : top.flatMap CallRest.owed = [] :=
  List.flatMap_eq_nil_iff.mpr fun rest hRest => by
    obtain ⟨_, rfl⟩ := h rest hRest
    rfl

theorem IsCheckOut.leaving (h : IsCheckOut top) : top.flatMap CallRest.leaving = [] :=
  List.flatMap_eq_nil_iff.mpr fun rest hRest => by
    obtain ⟨_, rfl⟩ := h rest hRest
    rfl

theorem IsCheckOut.seen (h : IsCheckOut top) (m : Manager ops) :
    ∀ rest ∈ top, rest.seen m = ⟨none, []⟩ := fun rest hRest => by
  obtain ⟨_, rfl⟩ := h rest hRest
  rfl

/-- A call that makes no group and puts none: the groups that are leaving make no
difference to it. -/
structure PlainCall (maxNodeNum : ULong) (s : Nesting ops) (call : ManagerCall Id)
    (m' : Manager ops) (callbacks : List Callback) : Prop where
  legal      : ∀ held, call.Legal held
  release_eq : ∀ held, call.release held = held
  lasting_eq : (⟨call, ⟨none, callbacks⟩⟩ : AppAct Id).lasting = some call
  apply_eq   : ∀ caches freed, call.apply (s.manager.without s.leaving caches freed) =
    some (m'.without s.leaving caches freed, ⟨none, callbacks⟩)
  ended      : ∃ l, callbacks = endTokenGrps m'.groups l
  keeps      : KeepsGroups s.manager m'
  stocked    : m'.Stocked maxNodeNum

namespace PlainCall

theorem nodeOnline (h : s.Flat maxNodeNum f) {id : Id} {m' : Manager ops}
    (hOnline : s.manager.nodeOnline id = some m') :
    PlainCall maxNodeNum s (.nodeOnline id) m' [] := by
  obtain ⟨m, hOnline', hStocked⟩ := h.tidy.stocked.nodeOnline id
  obtain rfl := Option.some.inj (hOnline'.symm.trans hOnline)
  refine ⟨fun _ => trivial, fun _ => rfl, rfl, fun caches freed => ?_, ⟨[], rfl⟩,
    nodeOnline_keepsGroups hOnline, hStocked⟩
  rw [ManagerCall.apply, nodeOnline_without, hOnline]
  rfl

theorem nodeOffline (h : s.Flat maxNodeNum f) (id : Id) :
    PlainCall maxNodeNum s (.nodeOffline id) (s.manager.nodeOffline id).1
      (s.manager.nodeOffline id).2 := by
  refine ⟨fun _ => trivial, fun _ => rfl, rfl, fun caches freed => ?_,
    nodeOffline_callbacks s.manager id, nodeOffline_keepsGroups s.manager id,
    h.tidy.stocked.nodeOffline id⟩
  rw [ManagerCall.apply, nodeOffline_without h.unqueued]

theorem nodeReset (h : s.Flat maxNodeNum f) (id : Id) :
    PlainCall maxNodeNum s (.nodeReset id) (s.manager.nodeReset id) [] := by
  refine ⟨fun _ => trivial, fun _ => rfl, rfl, fun caches freed => ?_, ⟨[], rfl⟩,
    nodeReset_keepsGroups s.manager id, h.tidy.stocked.congr (s.manager.nodeReset_stock id)⟩
  rw [ManagerCall.apply, nodeReset_without]

theorem rcvd (h : s.Flat maxNodeNum f) {id : Id} {dta : Dispatch2App} {m' : Manager ops}
    {callbacks : List Callback} (hRcvd : s.manager.rcvd id dta = some (m', callbacks)) :
    PlainCall maxNodeNum s (.rcvd id dta) m' callbacks := by
  obtain ⟨res, hRcvd', hStocked⟩ := h.tidy.stocked.rcvd id dta
  obtain rfl := Option.some.inj (hRcvd'.symm.trans hRcvd)
  refine ⟨fun _ => trivial, fun _ => rfl, rfl, fun caches freed => ?_, rcvd_callbacks hRcvd,
    rcvd_keepsGroups hRcvd, hStocked⟩
  rw [ManagerCall.apply, rcvd_without h.unqueued, hRcvd]
  rfl

theorem step {call : ManagerCall Id} {m' : Manager ops} {callbacks : List Callback}
    {caches : MemoryCache × MemoryCache} {freed : List (TokenReqgrp Id)}
    (hPlain : PlainCall maxNodeNum s call m' callbacks)
    (hManager : f.manager = s.manager.without s.leaving caches freed) :
    (managerSystem ops).step f ⟨call, ⟨none, callbacks⟩⟩
      ⟨m'.without s.leaving caches freed, Seen.delivers ⟨none, callbacks⟩ ++ f.held⟩ := by
  refine ⟨hPlain.legal f.held, ?_, ?_⟩
  · rw [hManager]
    exact hPlain.apply_eq caches freed
  · rw [hPlain.release_eq]

end PlainCall

theorem Answers.plain (h : s.Flat maxNodeNum f) {a : NestAct Id} {call : ManagerCall Id}
    {callbacks : List Callback} {more : List (CallRest Id)}
    (hPlain : PlainCall maxNodeNum s call s'.manager callbacks) (hHeld : s'.held = s.held)
    (hRests : s.rests = top ++ after) (hRests' : s'.rests = (callBacks callbacks ++ more) ++ after)
    (hTop : IsCheckOut top) (hMore : IsCheckOut more) (hCall : a.asCall = some call)
    (hSeen : a.seen = ⟨none, []⟩) :
    ∃ tr f', Answers maxNodeNum s a s' f tr f' := by
  obtain ⟨caches, freed, hManager⟩ := h.asCalls.manager
  have hLeaving : s'.leaving = s.leaving := by
    rw [Nesting.leaving, Nesting.leaving, hRests, hRests', List.flatMap_append,
      List.flatMap_append, List.flatMap_append, leaving_callBacks, hMore.leaving, hTop.leaving]
    rfl
  have hOwed : s'.owed = callbacks.map Callback.grp ++ s.owed := by
    rw [Nesting.owed, Nesting.owed, hRests, hRests', List.flatMap_append, List.flatMap_append,
      List.flatMap_append, owed_callBacks, hMore.owed, hTop.owed, List.append_nil]
    rfl
  have hStep := hPlain.step hManager
  have hPerm : (s'.held ++ s'.owed).Perm
      (Seen.delivers ⟨none, callbacks⟩ ++ call.release (s.held ++ s.owed)) := by
    rw [hHeld, hOwed, hPlain.release_eq]
    change (s.held ++ (callbacks.map Callback.grp ++ s.owed)).Perm
      (callbacks.map Callback.grp ++ (s.held ++ s.owed))
    rw [← List.append_assoc, ← List.append_assoc]
    exact List.perm_append_comm.append_right _
  have hTidy : s'.manager.Tidy maxNodeNum s'.leaving := hLeaving ▸ h.tidy.keeps hPlain.keeps hPlain.stocked
  have hTokenGrps := h.tokenGrps
  have hResources := h.resources
  rw [hManager, ← hPlain.keeps.tokenGrps] at hTokenGrps
  rw [hManager, ← hPlain.keeps.resources] at hResources
  have hFlat : s'.Flat maxNodeNum _ :=
    h.of_step hStep ⟨caches, freed, by rw [hLeaving]⟩ hPerm hTidy hTokenGrps hResources
  obtain ⟨l, hEnd⟩ := hPlain.ended
  refine ⟨_, _, .one h hStep hFlat hRests hRests' (hCall.trans hPlain.lasting_eq.symm) hSeen
    (hTop.seen _) ?_ ?_⟩
  · rw [List.map_append, List.flatMap_append, flatMap_callBacks hEnd,
      callbacks_quiet (hMore.seen _), List.append_nil]
  · rw [List.map_append, List.filterMap_append, filterMap_callBacks, answers_quiet (hMore.seen _)]
    rfl

-- ---------------------------------------------------------------------------
-- Putting
-- ---------------------------------------------------------------------------

/-- What `putTokens` does: a group whose requests are its own is left as it is,
and its put without nesting is the same but for the groups that are leaving. -/
theorem putTokens_without {m m' : Manager ops} {leaving : List GrpPtr} {rests : List (CallRest Id)}
    {g : TokenReqgrp Id} (hm : m.Unqueued leaving) (hgid : gid ∉ leaving)
    (hg : group? m.groups gid = some g) (hOwner : ∀ r ∈ g.lheadReqgrp, r.tokenGrp = gid)
    (hPut : m.putTokens gid = some (m', rests)) :
    SameStock m m' ∧ SameCaches m m' ∧ ∃ callbacks g',
      (∃ l, callbacks = endTokenGrps m'.groups l) ∧ rests = callBacks callbacks ++ [.exitGrp gid] ∧
      group? m'.groups gid = some g' ∧ ∀ caches freed,
        (m.without leaving caches freed).putTokenGrp gid none =
          (m'.without (gid :: leaving) (caches.1.free, g'.tokenReqgrpExit caches.2) (g' :: freed),
            callbacks) := by
  have hps : ∀ p ∈ g.lheadReqgrp.map TokenReq.ptr, p.grp ∉ leaving := by
    intro p hp
    obtain ⟨r, hr, rfl⟩ := List.mem_map.mp hp
    rw [← hOwner r hr] at hgid
    exact hgid
  have hStock := tryToPutTokens_stock (g.lheadReqgrp.map TokenReq.ptr) m []
  have hCaches := tryToPutTokens_caches (g.lheadReqgrp.map TokenReq.ptr) m []
  have hPasses : ∀ caches freed, Passes leaving caches freed _ _ := fun caches freed =>
    tryToPutTokens_passes caches freed hm hps (List.forall_mem_nil _)
  unfold Manager.putTokens at hPut
  rw [hg, Option.map_some] at hPut
  generalize m.tryToPutTokens [] (g.lheadReqgrp.map TokenReq.ptr) = res at *
  obtain ⟨m₁, relative⟩ := res
  obtain ⟨rfl, rfl⟩ := Prod.mk.inj (Option.some.inj hPut)
  have hMem : gid ∈ gids m₁.groups := by
    rw [gids_of_shape hStock.shape]
    exact mem_gids_of_group? hg
  obtain ⟨g', hg'⟩ := group?_of_mem_gids hMem
  refine ⟨hStock, hCaches, _, g', ⟨relative, rfl⟩, rfl, hg', fun caches freed => ?_⟩
  have hGroup : (m.without leaving caches freed).groups.group? gid = some g :=
    (group?_without hgid m.groups).trans hg
  unfold Manager.putTokenGrp Manager.checkNodeOutWhenPut
  simp only [Option.map_none, Option.getD_none, hGroup, (hPasses caches freed).same,
    List.nil_append, freeGroup_without m₁ hgid hg']
  exact congrArg (Prod.mk _) (endTokenGrps_without (hPasses caches freed).got _)

theorem tokenReqgrpExit_unit (g : TokenReqgrp Id) (cache : MemoryCache) :
    (g.tokenReqgrpExit cache).cacheUnit = cache.cacheUnit := by
  unfold TokenReqgrp.tokenReqgrpExit TokenReqgrp.clearTokenGrpResource
  induction g.lheadReqgrp generalizing cache with
  | nil => rfl
  | cons r rest ih => exact ih cache.free

/-- What is put is no longer owed. -/
theorem filter_ne_middle {l l' : List GrpPtr} (hNodup : (l ++ gid :: l').Nodup) :
    (l ++ gid :: l').filter (· ≠ gid) = l ++ l' := by
  have hNot := (List.nodup_middle.mp hNodup).notMem
  rw [List.filter_append, List.filter_cons_of_neg (by simp), ← List.filter_append,
    List.filter_eq_self]
  exact fun x hx => decide_eq_true fun heq => hNot (heq ▸ hx)

/-- The tokens of a group are put: without nesting that is the put. -/
theorem Flat.putStep (h : s.Flat maxNodeNum f) {m' : Manager ops} {rests : List (CallRest Id)}
    (hRests : s.rests = .putTokens gid :: after)
    (hRun : s.manager.putTokens gid = some (m', rests)) :
    SameStock s.manager m' ∧ SameCaches s.manager m' ∧ gid ∉ s.leaving ∧
      ∃ callbacks g' caches freed, (∃ l, callbacks = endTokenGrps m'.groups l) ∧
        rests = callBacks callbacks ++ [.exitGrp gid] ∧ group? m'.groups gid = some g' ∧
        f.manager = s.manager.without s.leaving caches freed ∧
        (managerSystem ops).step f ⟨.putTokenGrp gid none, ⟨none, callbacks⟩⟩
          ⟨m'.without (gid :: s.leaving) (caches.1.free, g'.tokenReqgrpExit caches.2) (g' :: freed),
            Seen.delivers ⟨none, callbacks⟩ ++ f.held.filter (· ≠ gid)⟩ := by
  obtain ⟨caches, freed, hManager⟩ := h.asCalls.manager
  have hOwed : gid ∈ s.owed := mem_owed_of_head hRests List.mem_cons_self
  have hOwn : gid ∈ f.held := (h.asCalls.held gid).mpr (Or.inr hOwed)
  obtain ⟨g, hgFlat, -⟩ := (h.inv.held gid).mp hOwn
  obtain ⟨hg, hNot⟩ := h.group?_eq hgFlat
  have hOwner : ∀ r ∈ g.lheadReqgrp, r.tokenGrp = gid := fun r hr =>
    ((h.inv.books.sound.group g (mem_of_lookup hgFlat)).owner r hr).trans (key_of_lookup hgFlat)
  obtain ⟨hStock, hCaches, callbacks, g', hEnd, hRest, hg', hPut⟩ :=
    putTokens_without h.unqueued hNot hg hOwner hRun
  refine ⟨hStock, hCaches, hNot, callbacks, g', caches, freed, hEnd, hRest, hg', hManager, hOwn, ?_,
    rfl⟩
  rw [hManager, ManagerCall.apply, hPut]

theorem Answers.putTokens (h : s.Flat maxNodeNum f) {rests : List (CallRest Id)}
    (hRests : s.rests = .putTokens gid :: after)
    (hRun : s.manager.putTokens gid = some (s'.manager, rests)) (hHeld : s'.held = s.held)
    (hRests' : s'.rests = rests ++ after) :
    ∃ tr f', Answers maxNodeNum s (.run (.putTokens gid) ⟨none, []⟩) s' f tr f' := by
  obtain ⟨hStock, hCaches, hNot, callbacks, g', caches, freed, ⟨l, hEnd⟩, rfl, hg', hManager,
    hStep⟩ := h.putStep hRests hRun
  have hOwed : s.owed = gid :: after.flatMap CallRest.owed := by
    rw [Nesting.owed, hRests]
    rfl
  have hLeaving : s'.leaving = gid :: s.leaving := by
    rw [Nesting.leaving, Nesting.leaving, hRests, hRests', List.flatMap_append,
      List.flatMap_append, leaving_callBacks]
    rfl
  have hOwed' : s'.owed = callbacks.map Callback.grp ++ after.flatMap CallRest.owed := by
    rw [Nesting.owed, hRests', List.flatMap_append, List.flatMap_append, owed_callBacks,
      List.append_assoc]
    rfl
  have hPerm : (s'.held ++ s'.owed).Perm
      (Seen.delivers ⟨none, callbacks⟩ ++ (s.held ++ s.owed).filter (· ≠ gid)) := by
    have hNodup := h.nodup
    rw [hOwed] at hNodup
    rw [hHeld, hOwed', hOwed, filter_ne_middle hNodup]
    change (s.held ++ (callbacks.map Callback.grp ++ after.flatMap CallRest.owed)).Perm
      (callbacks.map Callback.grp ++ (s.held ++ after.flatMap CallRest.owed))
    rw [← List.append_assoc, ← List.append_assoc]
    exact List.perm_append_comm.append_right _
  have hTidy : s'.manager.Tidy maxNodeNum s'.leaving := by
    rw [hLeaving]
    exact (h.tidy.keeps (.of_stock hStock hCaches.nextGrp_eq)
      (h.tidy.stocked.congr hStock)).leave (mem_gids_of_group? hg') hNot
  have hTokenGrps := h.tokenGrps
  have hResources := h.resources
  rw [hManager, ← hStock.tokenGrps] at hTokenGrps
  rw [hManager, ← hStock.resources] at hResources
  have hFlat : s'.Flat maxNodeNum _ :=
    h.of_step hStep ⟨_, _, by rw [hLeaving]⟩ hPerm hTidy hTokenGrps
      ((tokenReqgrpExit_unit g' caches.2).trans hResources)
  have hTop : s.rests = [.putTokens gid] ++ after := hRests
  refine ⟨_, _, .one h hStep hFlat hTop hRests' rfl rfl (List.forall_mem_singleton.mpr rfl) ?_ ?_⟩
  · rw [List.map_append, List.flatMap_append, flatMap_callBacks hEnd]
    exact List.append_nil _
  · rw [List.map_append, List.filterMap_append, filterMap_callBacks]
    rfl

-- ---------------------------------------------------------------------------
-- Steps that are nothing without nesting
-- ---------------------------------------------------------------------------

/-- Verdicts may change hands between the application and the calls. -/
theorem Flat.move (h : s.Flat maxNodeNum f) (hManager : s'.manager = s.manager)
    (hLeaving : s'.leaving = s.leaving) (hPerm : (s'.held ++ s'.owed).Perm (s.held ++ s.owed)) :
    s'.Flat maxNodeNum f where
  asCalls   := by
    refine ⟨by rw [hManager, hLeaving]; exact h.asCalls.manager, fun gid => ?_⟩
    rw [h.asCalls.held, ← List.mem_append, ← List.mem_append, hPerm.mem_iff]
  nodup     := hPerm.nodup_iff.mpr h.nodup
  tidy      := by
    rw [hManager, hLeaving]
    exact h.tidy
  inv       := h.inv
  stocked   := h.stocked
  tokenGrps := hManager ▸ h.tokenGrps
  resources := hManager ▸ h.resources

/-- The group the application wants to put waits for the nodes to be checked. -/
theorem Answers.enterPut (h : s.Flat maxNodeNum f) {failRs : Option (ResourceRing Id)}
    {rests : List (CallRest Id)} (hLegal : gid ∈ s.held)
    (hEnter : (ManagerCall.putTokenGrp gid failRs).enter s.manager = some (s'.manager, rests))
    (hHeld : s'.held = s.held.filter (· ≠ gid)) (hRests' : s'.rests = rests ++ s.rests) :
    Answers maxNodeNum s (.call (.putTokenGrp gid failRs) rests) s' f [] f := by
  obtain ⟨hManager, rfl⟩ := Prod.mk.inj (Option.some.inj hEnter)
  have hOwed : s'.owed = gid :: s.owed := by
    rw [Nesting.owed, hRests', List.flatMap_append]
    rfl
  have hLeaving : s'.leaving = s.leaving := by
    rw [Nesting.leaving, hRests', List.flatMap_append]
    rfl
  have hPerm : (s'.held ++ s'.owed).Perm (s.held ++ s.owed) := by
    obtain ⟨before, rest, hSplit⟩ := List.append_of_mem hLegal
    have hNodup := (List.nodup_append.mp h.nodup).1
    rw [hSplit] at hNodup
    rw [hHeld, hOwed, hSplit, filter_ne_middle hNodup, List.append_assoc, List.append_assoc,
      List.cons_append]
    exact (List.perm_middle.append_left before)
  have hTop : s.rests = [] ++ s.rests := rfl
  exact .silent h (h.move hManager.symm hLeaving hPerm) hTop hRests' rfl rfl rfl

theorem endTokenGrps_owed (h : s.Flat maxNodeNum f) (hgid : gid ∈ s.owed) :
    (endTokenGrps s.manager.groups [gid]).map Callback.grp = [gid] := by
  obtain ⟨g, hg, -⟩ := h.settled (Or.inr hgid)
  rw [endTokenGrps_singleton hg]
  rfl

/-- What the application is handed it has. -/
theorem Answers.hand (h : s.Flat maxNodeNum f) {rest : CallRest Id} {rests : List (CallRest Id)}
    (hRests : s.rests = rest :: after) (hManager : s'.manager = s.manager)
    (hHeld : s'.held = (rest.seen s.manager).delivers ++ s.held)
    (hRests' : s'.rests = rests ++ after) (hLeaving : rests.flatMap CallRest.leaving = rest.leaving)
    (hOwed : rests.flatMap CallRest.owed = [])
    (hDelivers : (rest.seen s.manager).delivers = rest.owed)
    (hCall : (NestAct.run rest (rest.seen s.manager)).asCall = none)
    (hQuiet : ∀ x ∈ rests, x.seen s.manager = ⟨none, []⟩) :
    Answers maxNodeNum s (.run rest (rest.seen s.manager)) s' f [] f := by
  have hPerm : (s'.held ++ s'.owed).Perm (s.held ++ s.owed) := by
    rw [hHeld, Nesting.owed, Nesting.owed, hRests, hRests', List.flatMap_append, hOwed, hDelivers,
      List.flatMap_cons, List.nil_append, ← List.append_assoc]
    exact List.perm_append_comm.append_right _
  have hLeaving' : s'.leaving = s.leaving := by
    rw [Nesting.leaving, Nesting.leaving, hRests, hRests', List.flatMap_append, hLeaving,
      List.flatMap_cons]
  have hTop : s.rests = [rest] ++ after := hRests
  refine .silent h (h.move hManager hLeaving' hPerm) hTop hRests' hCall ?_ ?_
  · rw [hManager, callbacks_quiet hQuiet]
    simp [NestAct.seen]
  · rw [hManager, answers_quiet hQuiet]
    cases hAnswer : (rest.seen s.manager).answer <;> simp [NestAct.seen, hAnswer]

/-- A group that leaves is one that has left. -/
theorem Answers.exitGrp (h : s.Flat maxNodeNum f) (hRests : s.rests = .exitGrp gid :: after)
    (hManager : s'.manager = s.manager.freeGroup gid) (hHeld : s'.held = s.held)
    (hRests' : s'.rests = after) :
    Answers maxNodeNum s (.run (.exitGrp gid) ⟨none, []⟩) s' f [] f := by
  obtain ⟨caches, freed, hFlat⟩ := h.asCalls.manager
  have hOwed : s'.owed = s.owed := by
    rw [Nesting.owed, Nesting.owed, hRests, hRests']
    rfl
  have hLeaving : s.leaving = gid :: s'.leaving := by
    rw [Nesting.leaving, Nesting.leaving, hRests, hRests']
    rfl
  have hTidy := h.tidy
  rw [hLeaving] at hTidy
  obtain ⟨g, hg⟩ := group?_of_mem_gids (hTidy.live gid List.mem_cons_self)
  have hUnits : (s.manager.freeGroup gid).tokenGrpCache.cacheUnit =
        s.manager.tokenGrpCache.cacheUnit ∧
      (s.manager.freeGroup gid).resourceCache.cacheUnit = s.manager.resourceCache.cacheUnit := by
    unfold freeGroup
    rw [hg]
    exact ⟨rfl, tokenReqgrpExit_unit g _⟩
  have hTop : s.rests = [.exitGrp gid] ++ after := hRests
  have hTop' : s'.rests = [] ++ after := hRests'
  refine .silent h ⟨⟨⟨caches, freed, ?_⟩, ?_⟩, ?_, ?_, h.inv, h.stocked, ?_, ?_⟩ hTop hTop' rfl
    rfl rfl
  · rw [hManager, without_freeGroup s.manager hg, ← hLeaving]
    exact hFlat
  · intro x
    rw [hHeld, hOwed]
    exact h.asCalls.held x
  · rw [hHeld, hOwed]
    exact h.nodup
  · rw [hManager]
    exact hTidy.exit
  · rw [hManager, hUnits.1]
    exact h.tokenGrps
  · rw [hManager, hUnits.2]
    exact h.resources

end Nesting

end DatastorQos
