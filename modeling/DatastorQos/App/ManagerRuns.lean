import DatastorQos.Lib.Runs
import DatastorQos.App.GetBooks

/-!
# datastor_qos — runs of the app side

The manager as a system: the application gets and puts groups, the message
layer reports nodes and messages, in any order, each call run to completion. A
call that fails an `assert` does not complete and is no step.

* `AppState.Inv` — the books, where the group records are, and which verdicts
  the application holds;
* `Fate` — what one call does to the group records known before it;
* `step_effect` — every call keeps the first and is the second.
-/

namespace DatastorQos

open Keyed GrpHeap Runs

variable {Id : Type} {ops : IdOps Id} {fenced calm : Prop}

-- ---------------------------------------------------------------------------
-- Calls
-- ---------------------------------------------------------------------------

/-- What the application sees of a call: the group a get made with the value
returned, and the callbacks made on the way. -/
structure Seen where
  answer    : Option (GrpPtr × QosError)
  callbacks : List Callback
  deriving DecidableEq, Repr

/-- The calls of the application and of the network on a manager. -/
inductive ManagerCall (Id : Type) where
  | getTokenGrp (ring : ResourceRing Id) (pri : Nat)
  | putTokenGrp (gid : GrpPtr) (failRs : Option (ResourceRing Id))
  | nodeOnline (id : Id)
  | nodeOffline (id : Id)
  | nodeReset (id : Id)
  | rcvd (id : Id) (dta : Dispatch2App)

/-- What a call makes of the manager, and what the application sees of it; nothing
where an assertion of the source fails. -/
def ManagerCall.apply (m : Manager ops) : ManagerCall Id → Option (Manager ops × Seen)
  | .getTokenGrp ring pri =>
    (m.getTokenGrp ring pri).map fun res =>
      (res.manager, ⟨res.grp.map (·, res.err), res.callbacks⟩)
  | .putTokenGrp gid failRs =>
    some ((m.putTokenGrp gid failRs).1, ⟨none, (m.putTokenGrp gid failRs).2⟩)
  | .nodeOnline id => (m.nodeOnline id).map (·, ⟨none, []⟩)
  | .nodeOffline id => some ((m.nodeOffline id).1, ⟨none, (m.nodeOffline id).2⟩)
  | .nodeReset id => some (m.nodeReset id, ⟨none, []⟩)
  | .rcvd id dta => (m.rcvd id dta).map fun res => (res.1, ⟨none, res.2⟩)

/-- The groups whose verdict a call delivers and leaves to the application: a
get that fails has released its group. -/
def Seen.delivers (seen : Seen) : List GrpPtr :=
  (match seen.answer with
    | some (gid, .ok) => [gid]
    | _ => []) ++ seen.callbacks.map Callback.grp

/-- The application learns of a group by an answer or a callback. -/
theorem Seen.mem_delivers {seen : Seen} {gid : GrpPtr} :
    gid ∈ seen.delivers ↔ seen.answer = some (gid, .ok) ∨ gid ∈ seen.callbacks.map Callback.grp := by
  unfold Seen.delivers
  rw [List.mem_append]
  refine or_congr_left ?_
  split
  · rename_i gid' hAnswer
    simp [hAnswer, eq_comm]
  · rename_i hNot
    simpa using hNot gid

/-- The manager, and the groups the application may put: their verdict was
delivered and they were not put since. -/
structure AppState (ops : IdOps Id) where
  manager : Manager ops
  held    : List GrpPtr

/-- A group is put by who holds it. -/
def ManagerCall.Legal (held : List GrpPtr) : ManagerCall Id → Prop
  | .putTokenGrp gid _ => gid ∈ held
  | _ => True

/-- What is still held once the call is made. -/
def ManagerCall.release (held : List GrpPtr) : ManagerCall Id → List GrpPtr
  | .putTokenGrp gid _ => held.filter (· ≠ gid)
  | _ => held

/-- The call takes no node offline. -/
def ManagerCall.KeepsNodes : ManagerCall Id → Prop
  | .putTokenGrp _ failRs => failRs = none
  | .nodeOffline _ => False
  | _ => True

/-- A completed call. -/
structure AppAct (Id : Type) where
  call : ManagerCall Id
  seen : Seen

/-- Any calls in any order, on a new manager. -/
def managerSystem (ops : IdOps Id) : System (AppState ops) (AppAct Id) where
  init s := ∃ tabLen maxTokenGrpNum maxResourceNum maxNodeNum h,
    s = ⟨.init ops tabLen maxTokenGrpNum maxResourceNum maxNodeNum h, []⟩
  step s a s' := a.call.Legal s.held ∧ a.call.apply s.manager = some (s'.manager, a.seen) ∧
    s'.held = a.seen.delivers ++ a.call.release s.held

/-- The state after a call that completes. -/
def AppState.after (s : AppState ops) (call : ManagerCall Id)
    (h : (call.apply s.manager).isSome = true) : AppState ops where
  manager := ((call.apply s.manager).get h).1
  held    := ((call.apply s.manager).get h).2.delivers ++ call.release s.held

theorem managerSystem_step (s : AppState ops) (call : ManagerCall Id) (hLegal : call.Legal s.held)
    (h : (call.apply s.manager).isSome = true) :
    (managerSystem ops).step s ⟨call, ((call.apply s.manager).get h).2⟩ (s.after call h) :=
  ⟨hLegal, (Option.some_get h).symm, rfl⟩

abbrev AppTransition (ops : IdOps Id) := Transition (AppState ops) (AppAct Id)

-- ---------------------------------------------------------------------------
-- Group records
-- ---------------------------------------------------------------------------

/-- The record of a group, live or as it was when it was given back. -/
def Manager.record? (m : Manager ops) (gid : GrpPtr) : Option (TokenReqgrp Id) :=
  (group? m.groups gid).or (group? m.freed gid)

/-- Where the records are: every address was handed out before, none twice, and
a group given back is settled. -/
structure Manager.Records (m : Manager ops) : Prop where
  fresh  : ∀ gid g, m.record? gid = some g → gid < m.nextGrp
  apart  : ∀ gid g, group? m.freed gid = some g → group? m.groups gid = none
  ended  : ∀ gid g, group? m.freed gid = some g → g.initNr = 0 ∧ g.Sound

/-- What a call does to the records known before it: a settled group stays as it
is, and a group is called back exactly when the call settles it. -/
structure Fate (m : Manager ops) (callbacks : List Callback) (m' : Manager ops) : Prop where
  kept    : ∀ gid g, m.record? gid = some g → ∃ g', m'.record? gid = some g' ∧
    (g.initNr = 0 → g' = g) ∧
    callbacks.countP (fun cb => cb.grp = gid) = if g.initNr ≠ 0 ∧ g'.initNr = 0 then 1 else 0
  carries : ∀ cb ∈ callbacks, (m.record? cb.grp).isSome ∧
    ∃ g', m'.record? cb.grp = some g' ∧ g'.initNr = 0 ∧ cb.err = g'.err

namespace Manager

variable {m m₁ m' : Manager ops} {gid : GrpPtr} {g : TokenReqgrp Id}

theorem record?_of_group? (hg : group? m.groups gid = some g) : m.record? gid = some g := by
  unfold record?
  rw [hg]
  rfl

/-- A group that is known is there, or was given back. -/
theorem record?_cases (hg : m.record? gid = some g) :
    group? m.groups gid = some g ∨
      group? m.groups gid = none ∧ group? m.freed gid = some g := by
  unfold record? at hg
  cases hLive : group? m.groups gid with
  | some x =>
    rw [hLive] at hg
    exact Or.inl hg
  | none =>
    rw [hLive] at hg
    exact Or.inr ⟨rfl, hg⟩

/-- Memory changes its groups, not which there are. -/
theorem Records.of_domain (hr : m.Records)
    (hDomain : ∀ gid, (group? m'.groups gid).isSome = (group? m.groups gid).isSome)
    (hFreed : m'.freed = m.freed) (hNext : m.nextGrp ≤ m'.nextGrp) : m'.Records where
  fresh := by
    intro gid g hg
    refine Nat.lt_of_lt_of_le ?_ hNext
    rcases record?_cases hg with hg | ⟨-, hg⟩
    · obtain ⟨g₀, hg₀⟩ := group?_some_of_isSome (hDomain gid).symm hg
      exact hr.fresh gid g₀ (record?_of_group? hg₀)
    · rw [hFreed] at hg
      refine hr.fresh gid g ?_
      unfold record?
      rw [hr.apart gid g hg, hg]
      rfl
  apart := by
    intro gid g hg
    rw [hFreed] at hg
    exact group?_none_of_isSome (hDomain gid) (hr.apart gid g hg)
  ended := fun gid g hg => hr.ended gid g (hFreed ▸ hg)

/-- The address of the next group is new. -/
theorem Records.unknown (hr : m.Records) : m.record? m.nextGrp = none := by
  refine Option.eq_none_iff_forall_not_mem.mpr fun g hg => ?_
  exact Nat.lt_irrefl _ (hr.fresh _ g hg)

/-- A group that is still to be made is not settled. -/
theorem Records.not_settled (hr : m.Records) : ¬ m.groups.Settled m.nextGrp := by
  rintro ⟨g, hg, -⟩
  exact Nat.lt_irrefl _ (hr.fresh _ g (record?_of_group? hg))

end Manager

open Manager

theorem Fate.refl (m : Manager ops) : Fate m [] m where
  kept    := fun _ g hg => ⟨g, hg, fun _ => rfl, by simp⟩
  carries := by simp

/-- What is told on the way and then, and no group comes back. -/
theorem Fate.trans {m m₁ m' : Manager ops} {l l' : List Callback} (a : Fate m l m₁)
    (b : Fate m₁ l' m') (hKnown : ∀ cb ∈ l', (m₁.record? cb.grp).isSome → (m.record? cb.grp).isSome) :
    Fate m (l ++ l') m' where
  kept    := by
    intro gid g hg
    obtain ⟨g₁, hg₁, hKept₁, hCount₁⟩ := a.kept gid g hg
    obtain ⟨g', hg', hKept, hCount⟩ := b.kept gid g₁ hg₁
    refine ⟨g', hg', fun hz => ?_, ?_⟩
    · obtain rfl := hKept₁ hz
      exact hKept hz
    · rw [List.countP_append, hCount₁, hCount]
      by_cases hz : g.initNr = 0
      · obtain rfl := hKept₁ hz
        simp [hz]
      · by_cases hz₁ : g₁.initNr = 0
        · obtain rfl := hKept hz₁
          simp [hz, hz₁]
        · simp [hz, hz₁]
  carries := by
    intro cb hcb
    rcases List.mem_append.mp hcb with hcb | hcb
    · obtain ⟨hKnown, g₁, hg₁, hz, hErr⟩ := a.carries cb hcb
      obtain ⟨g', hg', hKept, -⟩ := b.kept cb.grp g₁ hg₁
      obtain rfl := hKept hz
      exact ⟨hKnown, g', hg', hz, hErr⟩
    · obtain ⟨hSome, hRest⟩ := b.carries cb hcb
      exact ⟨hKnown cb hcb hSome, hRest⟩

/-- An operation that gives no group back. -/
theorem Fate.of_delivers {m m' : Manager ops} {l : List Callback} (hr : m.Records)
    (hDelivers : Delivers m.groups l m'.groups) (hFreed : m'.freed = m.freed) : Fate m l m' where
  kept    := by
    intro gid g hg
    rcases record?_cases hg with hg | ⟨hLive, hg⟩
    · obtain ⟨g', hg'⟩ := group?_some_of_isSome (hDelivers.domain gid) hg
      refine ⟨g', record?_of_group? hg', fun hz => ?_, hDelivers.counted gid g g' hg hg'⟩
      exact Option.some.inj (hg'.symm.trans (hDelivers.kept gid g hg hz))
    · have hLive' := group?_none_of_isSome (hDelivers.domain gid) hLive
      refine ⟨g, ?_, fun _ => rfl, ?_⟩
      · unfold Manager.record?
        rw [hLive', hFreed, hg]
        rfl
      · rw [if_neg fun hc => hc.1 (hr.ended gid g hg).1, List.countP_eq_zero]
        -- a callback names a live group
        rintro cb hcb hgrp
        obtain ⟨g', hg', -⟩ := hDelivers.carries cb hcb
        rw [of_decide_eq_true hgrp, hLive'] at hg'
        cases hg'
  carries := by
    intro cb hcb
    obtain ⟨g', hg', hz, -, hErr⟩ := hDelivers.carries cb hcb
    obtain ⟨g, hg⟩ := group?_some_of_isSome (hDelivers.domain cb.grp).symm hg'
    exact ⟨by rw [record?_of_group? hg]; rfl, g', record?_of_group? hg', hz, hErr⟩

/-- Two managers with the same records. -/
theorem Fate.congr {m m₁ m' : Manager ops} {l : List Callback} (a : Fate m l m₁)
    (hRecord : m'.record? = m₁.record?) : Fate m l m' where
  kept    := hRecord ▸ a.kept
  carries := hRecord ▸ a.carries

-- ---------------------------------------------------------------------------
-- A group is put
-- ---------------------------------------------------------------------------

namespace PutEffect

variable {m m' : Manager ops} {g : TokenReqgrp Id} {callbacks : List Callback} {h : GrpHeap Id}

/-- The group that was put is gone, and the others are as the loop left them. -/
theorem group?_eq (hp : PutEffect fenced calm m g callbacks h m') (gid : GrpPtr) :
    group? m'.groups gid = if gid = g.gid then none else group? h gid := by
  rw [hp.groups]
  exact lookup_erase h

/-- The record moves to the groups given back. -/
theorem record?_eq (hp : PutEffect fenced calm m g callbacks h m') :
    m'.record? = ({ m with groups := h } : Manager ops).record? := by
  funext gid
  unfold Manager.record?
  rw [hp.group?_eq, hp.freed_eq, group?_cons]
  by_cases hgid : gid = g.gid
  · rw [if_pos hgid, if_pos hgid.symm, hgid, hp.kept]
    rfl
  · rw [if_neg hgid, if_neg (Ne.symm hgid)]

/-- A put tells the groups it served, and keeps the one it gave back on record. -/
theorem fate (hp : PutEffect fenced calm m g callbacks h m') (hr : m.Records) :
    Fate m callbacks m' := by
  have hMid : Fate m callbacks { m with groups := h } := .of_delivers hr hp.delivers rfl
  exact hMid.congr hp.record?_eq

theorem records (hp : PutEffect fenced calm m g callbacks h m') (hr : m.Records) (hz : g.initNr = 0) :
    m'.Records := by
  have hMid : ({ m with groups := h } : Manager ops).Records :=
    hr.of_domain hp.delivers.domain rfl (Nat.le_refl _)
  have hFreed : ∀ gid x, group? m'.freed gid = some x →
      gid = g.gid ∧ x = g ∨ gid ≠ g.gid ∧ group? m.freed gid = some x := by
    intro gid x hx
    rw [hp.freed_eq, group?_cons] at hx
    by_cases hgid : g.gid = gid
    · rw [if_pos hgid] at hx
      exact Or.inl ⟨hgid.symm, (Option.some.inj hx).symm⟩
    · rw [if_neg hgid] at hx
      exact Or.inr ⟨Ne.symm hgid, hx⟩
  refine ⟨fun gid x hx => ?_, fun gid x hx => ?_, fun gid x hx => ?_⟩
  · rw [hp.record?_eq] at hx
    rw [hp.nextGrp_eq]
    exact hMid.fresh gid x hx
  · rw [hp.group?_eq]
    obtain ⟨rfl, -⟩ | ⟨hne, hx⟩ := hFreed gid x hx
    · exact if_pos rfl
    · rw [if_neg hne]
      exact hMid.apart gid x hx
  · obtain ⟨-, rfl⟩ | ⟨-, hx⟩ := hFreed gid x hx
    · exact ⟨hz, hp.delivers.sound.group x (mem_of_lookup hp.kept)⟩
    · exact hMid.ended gid x hx

/-- Settled are those that were, but for the one put, and those told. -/
theorem settled_iff (hp : PutEffect fenced calm m g callbacks h m') (gid : GrpPtr) :
    m'.groups.Settled gid ↔
      gid ≠ g.gid ∧ (gid ∈ callbacks.map Callback.grp ∨ m.groups.Settled gid) := by
  rw [← hp.delivers.settled_iff]
  unfold GrpHeap.Settled
  rw [hp.group?_eq]
  by_cases hgid : gid = g.gid <;> simp [hgid]

/-- A put makes no group. -/
theorem unknown (hp : PutEffect fenced calm m g callbacks h m') {gid : GrpPtr}
    (hNone : m.record? gid = none) : m'.record? gid = none := by
  obtain ⟨hLive, hFreed⟩ := Option.or_eq_none_iff.mp hNone
  rw [hp.record?_eq]
  unfold Manager.record?
  rw [group?_none_of_isSome (hp.delivers.domain gid) hLive, hFreed]
  rfl

end PutEffect

-- ---------------------------------------------------------------------------
-- A group is made
-- ---------------------------------------------------------------------------

namespace GetPlaced

variable {m m' : Manager ops} {g : TokenReqgrp Id}

/-- The group that a get made is on record, -/
theorem record?_new (hp : GetPlaced fenced calm m m' g) : m'.record? m.nextGrp = some g :=
  record?_of_group? hp.new

/-- and the others are as they were. -/
theorem record?_old (hp : GetPlaced fenced calm m m' g) {gid : GrpPtr} (hne : gid ≠ m.nextGrp) :
    m'.record? gid = m.record? gid := by
  unfold Manager.record?
  rw [hp.old gid hne, hp.freed_eq]

theorem fate (hp : GetPlaced fenced calm m m' g) (hr : m.Records) : Fate m [] m' where
  kept    := by
    intro gid x hx
    have hne : gid ≠ m.nextGrp := Nat.ne_of_lt (hr.fresh gid x hx)
    exact ⟨x, (hp.record?_old hne).trans hx, fun _ => rfl, by simp⟩
  carries := by simp

theorem records (hp : GetPlaced fenced calm m m' g) (hr : m.Records) : m'.Records where
  fresh := by
    intro gid x hx
    rw [hp.nextGrp_eq]
    by_cases hgid : gid = m.nextGrp
    · exact hgid ▸ Nat.lt_succ_self _
    · exact Nat.lt_succ_of_lt (hr.fresh gid x ((hp.record?_old hgid).symm.trans hx))
  apart := by
    intro gid x hx
    rw [hp.freed_eq] at hx
    have hLive := hr.apart gid x hx
    refine (hp.old gid fun hgid => ?_).trans hLive
    have hKnown : m.record? gid = some x := by
      unfold Manager.record?
      rw [hLive, hx]
      rfl
    rw [hgid, hr.unknown] at hKnown
    cases hKnown
  ended := fun gid x hx => hr.ended gid x (hp.freed_eq ▸ hx)

theorem settled_iff (hp : GetPlaced fenced calm m m' g) (hr : m.Records) (gid : GrpPtr) :
    m'.groups.Settled gid ↔ gid = m.nextGrp ∧ g.initNr = 0 ∨ m.groups.Settled gid := by
  by_cases hgid : gid = m.nextGrp
  · subst hgid
    constructor
    · rintro ⟨x, hx, hz⟩
      obtain rfl := Option.some.inj (hp.new.symm.trans hx)
      exact Or.inl ⟨rfl, hz⟩
    · rintro (⟨-, hz⟩ | hOld)
      · exact ⟨g, hp.new, hz⟩
      · exact absurd hOld hr.not_settled
  · simp [GrpHeap.Settled, hp.old gid hgid, hgid]

end GetPlaced

-- ---------------------------------------------------------------------------
-- One call
-- ---------------------------------------------------------------------------

/-- Between two calls. -/
structure AppState.Inv (fenced calm : Prop) (s : AppState ops) : Prop where
  books   : s.manager.Books fenced calm [] []
  records : s.manager.Records
  /-- the application holds the verdicts of exactly the settled live groups -/
  held    : ∀ gid, gid ∈ s.held ↔ s.manager.groups.Settled gid

/-- What a call does to the groups. -/
structure StepFate (m : Manager ops) (seen : Seen) (m' : Manager ops) : Prop where
  fate  : Fate m seen.callbacks m'
  /-- the value a get returns is the answer of the group it made -/
  made  : ∀ gid err, seen.answer = some (gid, err) →
    m.record? gid = none ∧ ∃ g, m'.record? gid = some g ∧ g.Sound ∧ err = g.answer
  known : ∀ gid, m.record? gid = none → (∀ err, seen.answer ≠ some (gid, err)) →
    m'.record? gid = none

/-- What there is to show of a call. -/
structure CallEffect (fenced calm : Prop) (s : AppState ops) (call : ManagerCall Id) (m' : Manager ops)
    (seen : Seen) : Prop where
  inv  : AppState.Inv fenced calm ⟨m', seen.delivers ++ call.release s.held⟩
  fate : StepFate s.manager seen m'

namespace CallEffect

variable {s : AppState ops} {call : ManagerCall Id} {m' : Manager ops} {callbacks : List Callback}

/-- A call that makes no group and gives none back. -/
theorem of_op (hi : s.Inv fenced calm) (he : OpEffect fenced calm s.manager callbacks [] [] m')
    (hRelease : call.release s.held = s.held) : CallEffect fenced calm s call m' ⟨none, callbacks⟩ where
  inv  := by
    refine ⟨he.books, hi.records.of_domain he.delivers.domain he.freed_eq
      (Nat.le_of_eq he.nextGrp_eq.symm), fun gid => ?_⟩
    rw [he.delivers.settled_iff, ← hi.held, hRelease, List.mem_append, Seen.mem_delivers]
    simp
  fate := by
    refine ⟨.of_delivers hi.records he.delivers he.freed_eq, by simp, fun gid hNone _ => ?_⟩
    obtain ⟨hLive, hFreed⟩ := Option.or_eq_none_iff.mp hNone
    unfold Manager.record?
    rw [group?_none_of_isSome (he.delivers.domain gid) hLive, he.freed_eq, hFreed]
    rfl

/-- A put from a state that a run reaches. -/
theorem of_put (hi : s.Inv fenced calm) {g : TokenReqgrp Id} {h : GrpHeap Id} (hz : g.initNr = 0)
    (hg : group? s.manager.groups g.gid = some g)
    (hp : PutEffect fenced calm s.manager g callbacks h m') (failRs : Option (ResourceRing Id)) :
    CallEffect fenced calm s (.putTokenGrp g.gid failRs) m' ⟨none, callbacks⟩ where
  inv  := by
    refine ⟨hp.books, hp.records hi.records hz, fun gid => ?_⟩
    have hNot := hp.delivers.not_called ⟨g, hg, hz⟩
    rw [hp.settled_iff, ← hi.held]
    simp only [List.mem_append, Seen.mem_delivers, ManagerCall.release, List.mem_filter,
      decide_eq_true_eq, reduceCtorEq, false_or]
    constructor
    · rintro (hgid | ⟨hgid, hne⟩)
      · refine ⟨?_, Or.inl hgid⟩
        obtain ⟨cb, hcb, rfl⟩ := List.mem_map.mp hgid
        exact hNot cb hcb
      · exact ⟨hne, Or.inr hgid⟩
    · rintro ⟨hne, hgid | hgid⟩
      · exact Or.inl hgid
      · exact Or.inr ⟨hgid, hne⟩
  fate := by
    exact ⟨hp.fate hi.records, by simp, fun gid hNone _ => hp.unknown hNone⟩

/-- A get from a state that a run reaches. -/
theorem of_get (hi : s.Inv fenced calm) {res : Manager.GetResult ops} (ring : ResourceRing Id)
    (pri : Nat) (he : GetEffect fenced calm s.manager res) :
    CallEffect fenced calm s (.getTokenGrp ring pri) res.manager
      ⟨res.grp.map (·, res.err), res.callbacks⟩ := by
  cases he with
  | memory m' hBooks hGroups hFreed hNext =>
    have hRecord : m'.record? = s.manager.record? := by
      funext gid
      unfold Manager.record?
      rw [hGroups, hFreed]
    refine ⟨⟨hBooks, hi.records.of_domain (fun gid => by rw [hGroups]) hFreed hNext, ?_⟩,
      (Fate.refl s.manager).congr hRecord, by simp, fun gid hNone _ => hRecord ▸ hNone⟩
    intro gid
    simp only [hGroups, ← hi.held]
    simp [Seen.delivers, ManagerCall.release]
  | placed m' g hMade hAnswer =>
    have hSound := hMade.books.sound.group g (mem_of_lookup hMade.new)
    -- the new group is settled if and only if the get says so
    have hNew : g.answer = .ok ↔ g.initNr = 0 := by
      obtain ⟨hp, hz⟩ | ⟨hz, hErr, hOk | hFailed⟩ := TokenReqgrp.answer_cases hSound
      · simp [hp, hz]
      · simp [hz, hErr, hOk]
      · rw [hErr, hFailed] at hAnswer
        simp at hAnswer
    refine ⟨⟨hMade.books, hMade.records hi.records, fun gid => ?_⟩, hMade.fate hi.records, ?_, ?_⟩
    · rw [hMade.settled_iff hi.records, ← hi.held, List.mem_append, Seen.mem_delivers, ← hNew]
      simp [ManagerCall.release, eq_comm]
    · rintro gid err heq
      obtain ⟨rfl, rfl⟩ := Prod.mk.inj (Option.some.inj heq)
      exact ⟨hi.records.unknown, g, hMade.record?_new, hSound, rfl⟩
    · intro gid hNone hne
      rwa [hMade.record?_old fun hgid => hne g.answer (by rw [hgid]; rfl)]
  | released m₁ m' g h callbacks hMade hz hErr hPut =>
    have hgid : g.gid = s.manager.nextGrp := key_of_lookup hMade.new
    have hg : group? m₁.groups g.gid = some g := hgid ▸ hMade.new
    have hNot := hPut.delivers.not_called ⟨g, hg, hz⟩
    have hRecords := hMade.records hi.records
    refine ⟨⟨hPut.books, hPut.records hRecords hz, fun gid => ?_⟩, ?_, ?_, ?_⟩
    · rw [hPut.settled_iff, hMade.settled_iff hi.records, ← hi.held, List.mem_append,
        Seen.mem_delivers]
      simp only [ManagerCall.release, Option.map_some, Option.some.injEq, Prod.mk.injEq,
        reduceCtorEq, and_false, false_or]
      constructor
      · rintro (hCalled | hHeld)
        · obtain ⟨cb, hcb, rfl⟩ := List.mem_map.mp hCalled
          exact ⟨hNot cb hcb, Or.inl hCalled⟩
        · refine ⟨fun heq => hi.records.not_settled ?_, Or.inr (Or.inr hHeld)⟩
          rw [← hgid, ← heq]
          exact (hi.held gid).mp hHeld
      · rintro ⟨hne, hCalled | ⟨heq, -⟩ | hHeld⟩
        · exact Or.inl hCalled
        · exact absurd (heq.trans hgid.symm) hne
        · exact Or.inr hHeld
    · refine (hMade.fate hi.records).trans (hPut.fate hRecords) fun cb hcb hKnown => ?_
      rwa [hMade.record?_old (hgid ▸ hNot cb hcb)] at hKnown
    · rintro gid err heq
      obtain ⟨rfl, rfl⟩ := Prod.mk.inj (Option.some.inj heq)
      refine ⟨hi.records.unknown, g, ?_, hPut.delivers.sound.group g (mem_of_lookup hPut.kept), ?_⟩
      · rw [hPut.record?_eq]
        exact record?_of_group? (hgid ▸ hPut.kept)
      · rw [TokenReqgrp.answer, if_pos hz, hErr]
    · intro gid hNone hne
      refine hPut.unknown ?_
      rwa [hMade.record?_old fun hgid => hne .failedNode (by rw [hgid]; rfl)]

end CallEffect

theorem AppState.Inv.fresh {s : AppState ops} (hi : s.Inv fenced calm) :
    ∀ g ∈ s.manager.groups, g.gid < s.manager.nextGrp := fun g hg =>
  hi.records.fresh g.gid g (record?_of_group? (lookup_of_mem hi.books.sound.distinct hg))

/-- Every call keeps the invariant, and does to the groups what `StepFate` says. -/
theorem step_effect {s s' : AppState ops} {a : AppAct Id} (hi : s.Inv fenced calm)
    (hStep : (managerSystem ops).step s a s') (hVersion : fenced → s'.manager.version ≤ 2 ^ 32)
    (hCalm : calm → a.call.KeepsNodes) :
    s'.Inv fenced calm ∧ StepFate s.manager a.seen s'.manager := by
  obtain ⟨hLegal, hApply, hHeld⟩ := hStep
  obtain ⟨call, seen⟩ := a
  obtain ⟨m', held'⟩ := s'
  simp only at hLegal hApply hHeld hVersion hCalm ⊢
  subst hHeld
  suffices CallEffect fenced calm s call m' seen from ⟨this.inv, this.fate⟩
  cases call with
  | getTokenGrp ring pri =>
    obtain ⟨res, hGet, heq⟩ := Option.map_eq_some_iff.mp hApply
    obtain ⟨rfl, rfl⟩ := Prod.mk.inj heq
    exact .of_get hi ring pri (getTokenGrp_effect hi.books hi.fresh hGet hVersion)
  | putTokenGrp gid failRs =>
    obtain ⟨g, hg, hz⟩ := (hi.held gid).mp hLegal
    obtain ⟨rfl, rfl⟩ := Prod.mk.inj (Option.some.inj hApply)
    have hgid := key_of_lookup hg
    subst hgid
    obtain ⟨h, hPut⟩ := putTokenGrp_effect hi.books hg hz failRs hCalm
    exact .of_put hi hz hg hPut failRs
  | nodeOnline id =>
    obtain ⟨m₁, hOnline, heq⟩ := Option.map_eq_some_iff.mp hApply
    obtain ⟨rfl, rfl⟩ := Prod.mk.inj heq
    exact .of_op hi (nodeOnline_effect hi.books hOnline hVersion) rfl
  | nodeOffline id =>
    obtain ⟨rfl, rfl⟩ := Prod.mk.inj (Option.some.inj hApply)
    exact .of_op hi (nodeOffline_effect hi.books hCalm id) rfl
  | nodeReset id =>
    obtain ⟨rfl, rfl⟩ := Prod.mk.inj (Option.some.inj hApply)
    exact .of_op hi (nodeReset_effect hi.books id) rfl
  | rcvd id dta =>
    obtain ⟨⟨m₁, callbacks⟩, hRcvd, heq⟩ := Option.map_eq_some_iff.mp hApply
    obtain ⟨rfl, rfl⟩ := Prod.mk.inj heq
    exact .of_op hi (rcvd_effect hi.books hRcvd hVersion) rfl

/-- One call, seen from the fences. -/
theorem step_fences {s s' : AppState ops} {a : AppAct Id} (hStep : (managerSystem ops).step s a s') :
    Fences s.manager s'.manager := by
  obtain ⟨-, hApply, -⟩ := hStep
  generalize a.call = call at hApply
  generalize a.seen = seen at hApply
  cases call with
  | getTokenGrp ring pri =>
    obtain ⟨res, hGet, heq⟩ := Option.map_eq_some_iff.mp hApply
    exact (Prod.mk.inj heq).1 ▸ getTokenGrp_fences hGet
  | putTokenGrp gid failRs =>
    exact (Prod.mk.inj (Option.some.inj hApply)).1 ▸ putTokenGrp_fences s.manager gid failRs
  | nodeOnline id =>
    obtain ⟨m₁, hOnline, heq⟩ := Option.map_eq_some_iff.mp hApply
    exact (Prod.mk.inj heq).1 ▸ nodeOnline_fences hOnline
  | nodeOffline id =>
    exact (Prod.mk.inj (Option.some.inj hApply)).1 ▸ nodeOffline_fences s.manager id
  | nodeReset id =>
    exact (Prod.mk.inj (Option.some.inj hApply)).1 ▸ nodeReset_fences s.manager id
  | rcvd id dta =>
    obtain ⟨⟨m₁, callbacks⟩, hRcvd, heq⟩ := Option.map_eq_some_iff.mp hApply
    exact (Prod.mk.inj heq).1 ▸ rcvd_fences hRcvd

-- ---------------------------------------------------------------------------
-- Runs
-- ---------------------------------------------------------------------------

/-- A new manager knows no node, -/
theorem AppState.node?_of_init {s : AppState ops} (h : (managerSystem ops).init s) (id : Id) :
    s.manager.node? id = none := by
  obtain ⟨tabLen, maxTokenGrpNum, maxResourceNum, maxNodeNum, hPos, rfl⟩ := h
  exact HashTable.find_alloc (h := hPos)

/-- no group, and owes nobody a verdict. -/
theorem AppState.blank_of_init {s : AppState ops} (h : (managerSystem ops).init s) :
    s.manager.groups = [] ∧ s.manager.freed = [] ∧ s.held = [] := by
  obtain ⟨_, _, _, _, _, rfl⟩ := h
  exact ⟨rfl, rfl, rfl⟩

theorem AppState.Inv.init {s : AppState ops} (h : (managerSystem ops).init s) : s.Inv fenced calm := by
  have hNode := AppState.node?_of_init h
  have hNone : ∀ {p : Prop} id n, s.manager.node? id = some n → p := fun id n hn => by
    rw [hNode] at hn
    cases hn
  obtain ⟨m, held⟩ := s
  obtain ⟨hGroups, hFreed, rfl⟩ := AppState.blank_of_init h
  simp only at hGroups hFreed hNone hNode
  have hReq : ∀ {p : Prop} r, r ∈ m.groups.reqs → p := fun r hr => by
    rw [hGroups] at hr
    cases hr
  constructor
  · exact {
      sound     := by
        rw [hGroups]
        exact ⟨List.nodup_nil, fun g hg => by cases hg⟩
      congr     := fun a b _ => (hNode a).trans (hNode b).symm
      fence_lt  := fun id n hn => hNone id n hn
      fence_inj := fun _ id _ n _ hn _ => hNone id n hn
      got_lt    := fun r hr => hReq r hr
      unplaced_nodup := List.nodup_nil
      freed_got := fun r hr => hReq r hr
      home      := fun _ r hr => hReq r hr
      waiting   := fun r hr => hReq r hr
      node      := fun id n hn => hNone id n hn }
  · constructor <;> intro gid g hg <;>
      simp [Manager.record?, hGroups, hFreed, GrpHeap.group?, lookup] at hg
  · intro gid
    simp [GrpHeap.Settled, hGroups, GrpHeap.group?, lookup]

/-- The invariant of a run. What depends on fences holds until the last of them
is handed out, what depends on nodes staying while they stay. -/
theorem Run.inv {s₀ s : AppState ops} {tr : List (AppTransition ops)}
    (hInit : (managerSystem ops).init s₀) (hRun : Run (managerSystem ops) s₀ tr s)
    (hVersion : fenced → s.manager.version ≤ 2 ^ 32)
    (hCalm : calm → ∀ x ∈ tr, x.act.call.KeepsNodes) : s.Inv fenced calm := by
  induction hRun with
  | nil => exact .init hInit
  | snoc _ hStep ih =>
    have hLe := (step_fences hStep).version_le
    have hInv := ih (fun hFenced => Nat.le_trans hLe (hVersion hFenced))
      fun h x hx => hCalm h x (List.mem_append_left _ hx)
    exact (step_effect hInv hStep hVersion fun h =>
      hCalm h _ (List.mem_append_right _ (List.mem_singleton_self _))).1

/-- What holds of any run. -/
theorem Run.inv_any {s₀ s : AppState ops} {tr : List (AppTransition ops)}
    (hInit : (managerSystem ops).init s₀) (hRun : Run (managerSystem ops) s₀ tr s) :
    s.Inv False False := Run.inv hInit hRun False.elim False.elim

end DatastorQos
