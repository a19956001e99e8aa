import DatastorQos.App.Reqgrp

/-!
# The groups in memory

A node reaches the groups of its queued requests through pointers. Here memory
is the list of all `token_reqgrp_t` objects, keyed by address; a request is
reached by the address of its group and its index in it. A write through a
pointer that leads nowhere changes nothing: `Dangling`-free states are an
invariant of the manager, not of this file.
-/

namespace DatastorQos

open Keyed

/-- All `token_reqgrp_t` objects. -/
abbrev GrpHeap (Id : Type) := List (TokenReqgrp Id)

/-- `resource_list_t` inside a request: `owner` is what `app_token_by_list`
recovers from its address. -/
structure ResourceList (Id : Type) where
  owner : ReqPtr
  rs    : Resource Id
  deriving DecidableEq, Repr

variable {Id : Type}

/-- `&rip->token_need`. -/
def TokenReq.needList (r : TokenReq Id) : ResourceList Id := ⟨r.ptr, r.tokenNeed⟩

namespace GrpHeap

/-- The group at an address. -/
def group? (h : GrpHeap Id) (gid : GrpPtr) : Option (TokenReqgrp Id) :=
  lookup TokenReqgrp.gid gid h

/-- The request at an address: its group, and its place there. -/
def request? (h : GrpHeap Id) (p : ReqPtr) : Option (TokenReq Id) :=
  (group? h p.grp).bind (·.request? p.idx)

/-- `rip->Nodeid = item->fence_id`. -/
def setNodeid (h : GrpHeap Id) (p : ReqPtr) (nodeid : BitVec 32) : GrpHeap Id :=
  modify TokenReqgrp.gid p.grp (·.setNodeid p.idx nodeid) h

/-- `permission->to_got(permission, rip)`. -/
def toGot (h : GrpHeap Id) (p : ReqPtr) : GrpHeap Id × QosError :=
  match group? h p.grp with
  | some g => (modify TokenReqgrp.gid p.grp (fun g => (g.toGot p.idx).1) h, (g.toGot p.idx).2)
  | none => (h, .pending)

/-- `permission->to_failed(permission, rip)`. -/
def toFailed (h : GrpHeap Id) (p : ReqPtr) : GrpHeap Id × QosError :=
  match group? h p.grp with
  | some g => (modify TokenReqgrp.gid p.grp (fun g => (g.toFailed p.idx).1) h, (g.toFailed p.idx).2)
  | none => (h, .pending)

/-- A grant leaves the group waiting, or tells its verdict. -/
theorem toGot_err (h : GrpHeap Id) (p : ReqPtr) :
    (h.toGot p).2 = .pending ∨ (h.toGot p).2 = .ok ∨ (h.toGot p).2 = .failedNode := by
  unfold toGot
  split
  · exact TokenReqgrp.toGot_err _ _
  · exact Or.inl rfl

/-- A failure leaves the group waiting, or tells that it failed. -/
theorem toFailed_err (h : GrpHeap Id) (p : ReqPtr) :
    (h.toFailed p).2 = .pending ∨ (h.toFailed p).2 = .failedNode := by
  unfold toFailed
  split
  · exact TokenReqgrp.toFailed_err _ _
  · exact Or.inl rfl

/-- All requests of all groups. -/
def reqs (h : GrpHeap Id) : List (TokenReq Id) := h.flatMap (·.lheadReqgrp)

/-- One object at each address, each group sound. -/
structure Sound (h : GrpHeap Id) : Prop where
  distinct : Distinct TokenReqgrp.gid h
  group    : ∀ g ∈ h, g.Sound

theorem mem_reqs {h : GrpHeap Id} {r : TokenReq Id} :
    r ∈ reqs h ↔ ∃ g ∈ h, r ∈ g.lheadReqgrp := List.mem_flatMap

namespace Sound

variable {h : GrpHeap Id} {r : TokenReq Id}

/-- A request's address leads to it. -/
theorem group?_of_mem (hs : Sound h) (hr : r ∈ reqs h) :
    ∃ g, group? h r.tokenGrp = some g ∧ g.request? r.idx = some r := by
  obtain ⟨g, hg, hrg⟩ := mem_reqs.mp hr
  have hSound := hs.group g hg
  refine ⟨g, ?_, lookup_of_mem hSound.distinct hrg⟩
  rw [hSound.owner r hrg]
  exact lookup_of_mem hs.distinct hg

/-- Each request is at its own address, -/
theorem request?_of_mem (hs : Sound h) (hr : r ∈ reqs h) : request? h r.ptr = some r := by
  obtain ⟨g, hg, hrg⟩ := hs.group?_of_mem hr
  simp [request?, TokenReq.ptr, hg, hrg]

/-- No two requests share an address. -/
theorem distinct_reqs (hs : Sound h) : Distinct TokenReq.ptr (reqs h) := by
  unfold Distinct reqs
  rw [List.map_flatMap, List.nodup_flatMap]
  constructor
  · intro g hg
    refine (List.Nodup.of_map (fun p : ReqPtr => p.idx) ?_)
    rw [List.map_map]
    exact (hs.group g hg).distinct
  · have hPair : h.Pairwise fun a b => a.gid ≠ b.gid := List.pairwise_map.mp hs.distinct
    refine hPair.imp_of_mem fun {a b} ha hb hne p hpa hpb => hne ?_
    obtain ⟨r, hr, rfl⟩ := List.mem_map.mp hpa
    obtain ⟨r', hr', heq⟩ := List.mem_map.mp hpb
    rw [← (hs.group a ha).owner r hr, ← (hs.group b hb).owner r' hr']
    exact (congrArg ReqPtr.grp heq).symm

/-- and no two share one. -/
theorem eq_of_ptr_eq (hs : Sound h) {r' : TokenReq Id} (hr : r ∈ reqs h) (hr' : r' ∈ reqs h)
    (hp : r.ptr = r'.ptr) : r = r' := hs.distinct_reqs.eq_of_key_eq hr hr' hp

end Sound

/-- A rewrite of one request inside its group is a rewrite of one record among
all requests. -/
theorem reqs_modify {h : GrpHeap Id} (hs : Sound h) {p : ReqPtr}
    {G : TokenReqgrp Id → TokenReqgrp Id} {f : TokenReq Id → TokenReq Id}
    (hG : ∀ g, group? h p.grp = some g →
      (G g).lheadReqgrp = modify TokenReq.idx p.idx f g.lheadReqgrp) :
    reqs (modify TokenReqgrp.gid p.grp G h) = modify TokenReq.ptr p f (reqs h) := by
  unfold reqs Keyed.modify
  rw [List.map_flatMap, List.flatMap_map]
  refine List.flatMap_congr fun g hg => ?_
  have hOwner := (hs.group g hg).owner
  by_cases hgid : g.gid = p.grp
  · rw [if_pos hgid, hG g (hgid ▸ lookup_of_mem hs.distinct hg)]
    refine List.map_congr_left fun r hr => ?_
    have : r.ptr = p ↔ r.idx = p.idx := by
      obtain ⟨grp, idx⟩ := p
      simp only at hgid
      simp [TokenReq.ptr, hOwner r hr, hgid]
    simp only [this]
  · rw [if_neg hgid]
    have hOther : ∀ r ∈ g.lheadReqgrp, r.ptr ≠ p := by
      rintro r hr rfl
      exact hgid (hOwner r hr).symm
    have hSame := List.map_congr_left (f := fun r => if r.ptr = p then f r else r) (g := id)
      fun r hr => if_neg (hOther r hr)
    rw [hSame, List.map_id]

/-- What a `to_got` or `to_failed` call on a request in `init` does to memory:
the request changes its `stat`, its group settles if it was the last, and no
other group changes. -/
structure Resolved (h : GrpHeap Id) (p : ReqPtr) (s : AppTokenStat) (h' : GrpHeap Id)
    (err : QosError) : Prop where
  sound   : Sound h'
  reqs_eq : reqs h' = modify TokenReq.ptr p (fun r => { r with stat := s }) (reqs h)
  group   : ∃ g g', group? h p.grp = some g ∧ g.Resolved p.idx s g' err ∧
    ∀ gid, group? h' gid = if gid = p.grp then some g' else group? h gid

/-- What settling a request does to its group it does to the memory. -/
theorem Sound.resolved {h : GrpHeap Id} (hs : Sound h) {p : ReqPtr} {g : TokenReqgrp Id}
    (hg : group? h p.grp = some g) {s : AppTokenStat} {call : TokenReqgrp Id → TokenReqgrp Id}
    {err : QosError} (hGid : ∀ g, (call g).gid = g.gid)
    (hr : g.Resolved p.idx s (call g) err) :
    Resolved h p s (modify TokenReqgrp.gid p.grp call h) err where
  sound := by
    refine ⟨hs.distinct.modify hGid, fun g' hg' => ?_⟩
    rcases mem_modify.mp hg' with ⟨hg', -⟩ | ⟨g₀, hg₀, hgid, rfl⟩
    · exact hs.group g' hg'
    · obtain rfl := hs.distinct.eq_of_key_eq hg₀ (mem_of_lookup hg)
        (hgid.trans (key_of_lookup hg).symm)
      exact hr.sound
  reqs_eq := by
    refine reqs_modify hs fun g' hg' => ?_
    obtain rfl : g = g' := Option.some.inj (hg.symm.trans hg')
    exact hr.reqs_eq
  group := by
    refine ⟨g, call g, hg, hr, fun gid => ?_⟩
    unfold group? at hg ⊢
    rw [lookup_modify hGid]
    split
    · rename_i heq
      rw [heq, hg]
      rfl
    · rfl

/-- A grant settles a request that waits; -/
theorem Sound.toGot {h : GrpHeap Id} (hs : Sound h) {r : TokenReq Id} (hr : r ∈ reqs h)
    (hInit : r.stat = .init) :
    Resolved h r.ptr .got (h.toGot r.ptr).1 (h.toGot r.ptr).2 := by
  obtain ⟨g, hg, hrg⟩ := hs.group?_of_mem hr
  have := (hs.group g (mem_of_lookup hg)).toGot hrg hInit
  unfold GrpHeap.toGot
  rw [show group? h r.ptr.grp = some g from hg]
  exact hs.resolved (p := r.ptr) hg (fun g => g.toGot_gid r.idx) this

/-- so does a failure. -/
theorem Sound.toFailed {h : GrpHeap Id} (hs : Sound h) {r : TokenReq Id} (hr : r ∈ reqs h)
    (hInit : r.stat = .init) :
    Resolved h r.ptr .failed (h.toFailed r.ptr).1 (h.toFailed r.ptr).2 := by
  obtain ⟨g, hg, hrg⟩ := hs.group?_of_mem hr
  have := (hs.group g (mem_of_lookup hg)).toFailed hrg hInit
  unfold GrpHeap.toFailed
  rw [show group? h r.ptr.grp = some g from hg]
  exact hs.resolved (p := r.ptr) hg (fun g => g.toFailed_gid r.idx) this

theorem group?_setNodeid (h : GrpHeap Id) (p : ReqPtr) (nodeid : BitVec 32) (gid : GrpPtr) :
    group? (h.setNodeid p nodeid) gid =
      if gid = p.grp then (group? h gid).map (·.setNodeid p.idx nodeid) else group? h gid :=
  lookup_modify (f := fun g : TokenReqgrp Id => g.setNodeid p.idx nodeid) (fun _ => rfl) h

/-- Marking a request with its node writes nothing else. -/
theorem Sound.setNodeid {h : GrpHeap Id} (hs : Sound h) (p : ReqPtr) (nodeid : BitVec 32) :
    Sound (h.setNodeid p nodeid) ∧
      reqs (h.setNodeid p nodeid) =
        modify TokenReq.ptr p (fun r => { r with nodeid := nodeid }) (reqs h) := by
  have hDistinct : Distinct TokenReqgrp.gid (h.setNodeid p nodeid) :=
    hs.distinct.modify (f := fun g : TokenReqgrp Id => g.setNodeid p.idx nodeid) fun _ => rfl
  refine ⟨⟨hDistinct, ?_⟩, reqs_modify hs fun g _ => rfl⟩
  intro g' hg'
  rcases mem_modify.mp hg' with ⟨hg', -⟩ | ⟨g₀, hg₀, -, rfl⟩
  · exact hs.group g' hg'
  · exact ((hs.group g₀ hg₀).setNodeid _ _).1

-- ---------------------------------------------------------------------------
-- Groups come and go
-- ---------------------------------------------------------------------------

theorem group?_cons (g : TokenReqgrp Id) (h : GrpHeap Id) (gid : GrpPtr) :
    group? (g :: h) gid = if g.gid = gid then some g else group? h gid := by
  unfold group? lookup
  rw [List.find?_cons]
  by_cases hg : g.gid = gid <;> simp [hg]

theorem reqs_cons (g : TokenReqgrp Id) (h : GrpHeap Id) :
    reqs (g :: h) = g.lheadReqgrp ++ reqs h := List.flatMap_cons

/-- A new group, at an address of its own. -/
theorem Sound.cons {h : GrpHeap Id} (hs : Sound h) {g : TokenReqgrp Id} (hg : g.Sound)
    (hNew : group? h g.gid = none) : Sound (g :: h) where
  distinct := by
    refine List.nodup_cons.mpr ⟨fun hmem => ?_, hs.distinct⟩
    obtain ⟨g', hg', heq⟩ := List.mem_map.mp hmem
    exact lookup_eq_none_iff.mp hNew g' hg' heq
  group    := by
    rintro g' (_ | ⟨_, hg'⟩)
    · exact hg
    · exact hs.group g' hg'

/-- A group that is given back takes its requests along. -/
theorem Sound.erase {h : GrpHeap Id} (hs : Sound h) (gid : GrpPtr) :
    Sound (erase TokenReqgrp.gid gid h) where
  distinct := hs.distinct.erase gid
  group    := fun g hg => hs.group g (mem_erase.mp hg).1

/-- Without a group, its requests are gone and no other. -/
theorem Sound.reqs_erase {h : GrpHeap Id} (hs : Sound h) (gid : GrpPtr) :
    reqs (Keyed.erase TokenReqgrp.gid gid h) =
      (reqs h).filter fun r => decide (r.tokenGrp ≠ gid) := by
  have hOwner : ∀ g ∈ h, ∀ r ∈ g.lheadReqgrp, r.tokenGrp = g.gid :=
    fun g hg => (hs.group g hg).owner
  clear hs
  unfold Keyed.erase reqs
  induction h with
  | nil => rfl
  | cons g h ih =>
    have ih := ih fun g' hg' => hOwner g' (List.mem_cons_of_mem _ hg')
    have hMine := hOwner g List.mem_cons_self
    rw [List.filter_cons, List.flatMap_cons, List.filter_append, ← ih]
    by_cases hg : g.gid = gid
    · have hNil : g.lheadReqgrp.filter (fun r => decide (r.tokenGrp ≠ gid)) = [] := by
        rw [List.filter_eq_nil_iff]
        intro r hr
        simp [hMine r hr, hg]
      rw [hNil]
      simp [hg]
    · have hAll : g.lheadReqgrp.filter (fun r => decide (r.tokenGrp ≠ gid)) = g.lheadReqgrp := by
        rw [List.filter_eq_self]
        intro r hr
        simp [hMine r hr, hg]
      rw [hAll]
      simp [hg]

-- ---------------------------------------------------------------------------
-- One group and the rest
-- ---------------------------------------------------------------------------

/-- A grant where the group is known. -/
theorem toGot_of_group? {h : GrpHeap Id} {p : ReqPtr} {g : TokenReqgrp Id}
    (hg : group? h p.grp = some g) :
    group? (h.toGot p).1 p.grp = some (g.toGot p.idx).1 ∧ (h.toGot p).2 = (g.toGot p.idx).2 := by
  unfold toGot
  rw [hg]
  refine ⟨?_, rfl⟩
  unfold group? at hg ⊢
  rw [lookup_modify fun g => g.toGot_gid p.idx, if_pos rfl, hg]
  rfl

/-- A failure where the group is known. -/
theorem toFailed_of_group? {h : GrpHeap Id} {p : ReqPtr} {g : TokenReqgrp Id}
    (hg : group? h p.grp = some g) :
    group? (h.toFailed p).1 p.grp = some (g.toFailed p.idx).1 ∧
      (h.toFailed p).2 = (g.toFailed p.idx).2 := by
  unfold toFailed
  rw [hg]
  refine ⟨?_, rfl⟩
  unfold group? at hg ⊢
  rw [lookup_modify fun g => g.toFailed_gid p.idx, if_pos rfl, hg]
  rfl

@[simp] theorem erase_toGot (h : GrpHeap Id) (p : ReqPtr) :
    Keyed.erase TokenReqgrp.gid p.grp (h.toGot p).1 = Keyed.erase TokenReqgrp.gid p.grp h := by
  unfold toGot
  split
  · exact erase_modify (fun g => g.toGot_gid p.idx) h
  · rfl

@[simp] theorem erase_toFailed (h : GrpHeap Id) (p : ReqPtr) :
    Keyed.erase TokenReqgrp.gid p.grp (h.toFailed p).1 = Keyed.erase TokenReqgrp.gid p.grp h := by
  unfold toFailed
  split
  · exact erase_modify (fun g => g.toFailed_gid p.idx) h
  · rfl

@[simp] theorem erase_setNodeid (h : GrpHeap Id) (p : ReqPtr) (nodeid : BitVec 32) :
    Keyed.erase TokenReqgrp.gid p.grp (h.setNodeid p nodeid) =
      Keyed.erase TokenReqgrp.gid p.grp h :=
  erase_modify (f := fun g : TokenReqgrp Id => g.setNodeid p.idx nodeid) (fun _ => rfl) h

-- ---------------------------------------------------------------------------
-- What is there, whatever its state
-- ---------------------------------------------------------------------------

/-- The groups by address, with how many requests each has. -/
def shape (h : GrpHeap Id) : List (GrpPtr × Nat) := h.map fun g => (g.gid, g.lheadReqgrp.length)

/-- A write that keeps how many requests each group has. -/
theorem shape_modify {p : GrpPtr} {f : TokenReqgrp Id → TokenReqgrp Id}
    (hGid : ∀ g, (f g).gid = g.gid)
    (hLength : ∀ g, (f g).lheadReqgrp.length = g.lheadReqgrp.length) (h : GrpHeap Id) :
    shape (modify TokenReqgrp.gid p f h) = shape h := by
  unfold shape Keyed.modify
  rw [List.map_map]
  refine List.map_congr_left fun g _ => ?_
  rw [Function.comp_apply]
  split
  · rw [hGid, hLength]
  · rfl

@[simp] theorem shape_setNodeid (h : GrpHeap Id) (p : ReqPtr) (nodeid : BitVec 32) :
    shape (h.setNodeid p nodeid) = shape h :=
  shape_modify (f := fun g : TokenReqgrp Id => g.setNodeid p.idx nodeid) (fun _ => rfl)
    (fun _ => List.length_map _) h

@[simp] theorem shape_toGot (h : GrpHeap Id) (p : ReqPtr) : shape (h.toGot p).1 = shape h := by
  unfold toGot
  split
  · exact shape_modify (fun g => g.toGot_gid p.idx) (fun g => g.toGot_length p.idx) h
  · rfl

@[simp] theorem shape_toFailed (h : GrpHeap Id) (p : ReqPtr) :
    shape (h.toFailed p).1 = shape h := by
  unfold toFailed
  split
  · exact shape_modify (fun g => g.toFailed_gid p.idx) (fun g => g.toFailed_length p.idx) h
  · rfl

variable {h h' : GrpHeap Id}

theorem length_eq_of_shape (hShape : shape h' = shape h) : h'.length = h.length := by
  simpa [shape] using congrArg List.length hShape

/-- There are as many requests as the shape says, -/
theorem length_reqs (h : GrpHeap Id) : (reqs h).length = ((shape h).map Prod.snd).sum := by
  unfold reqs shape
  rw [List.length_flatMap, List.map_map]
  rfl

/-- so operations that keep the shape keep the number. -/
theorem length_reqs_eq_of_shape (hShape : shape h' = shape h) :
    (reqs h').length = (reqs h).length := by
  rw [length_reqs, length_reqs, hShape]

theorem distinct_of_shape (hShape : shape h' = shape h) (hDistinct : Distinct TokenReqgrp.gid h) :
    Distinct TokenReqgrp.gid h' := by
  have hGids : ∀ l : GrpHeap Id, l.map TokenReqgrp.gid = (shape l).map Prod.fst := fun l => by
    unfold shape
    rw [List.map_map]
    rfl
  unfold Distinct
  rw [hGids, hShape, ← hGids]
  exact hDistinct

/-- Without a group there is one less, with as many requests as it had. -/
theorem length_erase (hDistinct : Distinct TokenReqgrp.gid h) {gid : GrpPtr} {g : TokenReqgrp Id}
    (hg : group? h gid = some g) :
    (Keyed.erase TokenReqgrp.gid gid h).length + 1 = h.length ∧
      (reqs (Keyed.erase TokenReqgrp.gid gid h)).length + g.lheadReqgrp.length =
        (reqs h).length := by
  have hSum : ∀ w : TokenReqgrp Id → Nat,
      ((Keyed.erase TokenReqgrp.gid gid h).map w).sum + w g = (h.map w).sum :=
    fun w => sum_erase hDistinct hg
  constructor
  · simpa using hSum fun _ => 1
  · have := hSum fun g => g.lheadReqgrp.length
    simpa [reqs, List.length_flatMap] using this

end GrpHeap

end DatastorQos
