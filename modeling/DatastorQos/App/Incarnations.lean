import DatastorQos.App.Manager

/-!
# datastor_qos — incarnations of a node

An id may go offline and come online again. The node that comes then is another
incarnation, told from the earlier one by its fence. `Fences` says what any
operation does to the fences: a node keeps its fence for as long as it is
online, and a node that comes online gets one never handed out before.
-/

namespace DatastorQos

variable {Id : Type} {ops : IdOps Id} {m m₁ m' : Manager ops} {id : Id}

-- ---------------------------------------------------------------------------
-- One node
-- ---------------------------------------------------------------------------

namespace DispatchNode

variable (n : DispatchNode Id) (h : GrpHeap Id) (got : List GrpPtr)

/-- Serving the queue writes no fence. -/
@[simp] theorem resourceIncreased_fenceId : (n.resourceIncreased h got).1.fenceId = n.fenceId := by
  unfold resourceIncreased
  split <;> rfl

/-- Nor does a message, also one that asks for a reset. -/
@[simp] theorem resourceChanged_fenceId (dta : Dispatch2App) :
    (n.resourceChanged h dta got).1.fenceId = n.fenceId := by
  obtain ⟨_, hEq | hEq⟩ := n.resourceChanged_cases dta h got <;> rw [hEq]
  · exact resourceIncreased_fenceId _ _ _
  · rfl

/-- Nor does a request that gives its tokens back, of whatever incarnation. -/
@[simp] theorem freeResource_fenceId (rip : TokenReq Id) :
    (n.freeResource h rip got).1.fenceId = n.fenceId := by
  unfold freeResource
  split
  · exact resourceIncreased_fenceId _ _ _
  · rfl

/-- A request is marked with the fence, which stays. -/
@[simp] theorem allocResource_fenceId (rs : ResourceList Id) :
    (n.allocResource h rs).1.fenceId = n.fenceId := by
  by_cases hFits : n.baseNode.Fits rs.rs.cost
  · rw [allocResource_of_fits hFits]
  · rw [allocResource_of_not_fits hFits]

end DispatchNode

-- ---------------------------------------------------------------------------
-- All nodes
-- ---------------------------------------------------------------------------

/-- From `m` to `m'` every online node kept its fence, or got one handed out in
between. -/
structure Fences (m m' : Manager ops) : Prop where
  version_le : m.version ≤ m'.version
  fence      : ∀ id n', m'.node? id = some n' →
    (∃ n, m.node? id = some n ∧ n'.fenceId = n.fenceId) ∨
      ∃ k, m.version ≤ k ∧ k < m'.version ∧ n'.fenceId = BitVec.ofNat 32 k

namespace Fences

theorem refl (m : Manager ops) : Fences m m where
  version_le := Nat.le_refl _
  fence      := fun _ n hn => Or.inl ⟨n, hn, rfl⟩

/-- A fence handed out on either way was handed out in between. -/
theorem trans (a : Fences m m₁) (b : Fences m₁ m') : Fences m m' where
  version_le := Nat.le_trans a.version_le b.version_le
  fence      := by
    intro id n' hn'
    rcases b.fence id n' hn' with ⟨n₁, hn₁, heq₁⟩ | ⟨k, hk, hk', heq⟩
    · rcases a.fence id n₁ hn₁ with ⟨n, hn, heq⟩ | ⟨k, hk, hk', heq⟩
      · exact Or.inl ⟨n, hn, heq₁.trans heq⟩
      · exact Or.inr ⟨k, hk, Nat.lt_of_lt_of_le hk' b.version_le, heq₁.trans heq⟩
    · exact Or.inr ⟨k, Nat.le_trans a.version_le hk, hk', heq⟩

/-- The nodes are the same, under the same version. -/
theorem of_same (hNode : ∀ id n', m'.node? id = some n' → m.node? id = some n')
    (hVersion : m'.version = m.version) : Fences m m' where
  version_le := Nat.le_of_eq hVersion.symm
  fence      := fun id n' hn' => Or.inl ⟨n', hNode id n' hn', rfl⟩

/-- A node operation keeps the node's fence. -/
theorem setNode {n n' : DispatchNode Id} (hn : m.node? id = some n) (heq : n'.fenceId = n.fenceId)
    (h : GrpHeap Id) : Fences m (m.setNode id n' h) where
  version_le := Nat.le_refl _
  fence      := by
    intro x nx hx
    refine Or.inl ?_
    unfold Manager.node? Manager.setNode at hx
    rw [HashTable.find_write] at hx
    split at hx
    · rename_i hSame
      have hn : m.appNodeTable.find x = some n := (HashTable.find_congr hSame) ▸ hn
      rw [hn] at hx
      obtain rfl := Option.some.inj hx
      exact ⟨n, hn, heq⟩
    · exact ⟨nx, hx, rfl⟩

/-- Where no fence was handed out, no node came online. -/
theorem node_of_version (a : Fences m m') (hVersion : m'.version = m.version)
    {n' : DispatchNode Id} (hn' : m'.node? id = some n') : ∃ n, m.node? id = some n := by
  rcases a.fence id n' hn' with ⟨n, hn, -⟩ | ⟨k, hk, hk', -⟩
  · exact ⟨n, hn⟩
  · omega

end Fences

/-- The node that joins has the fence of the current version; an id that is known
uses a version up, and keeps its node. -/
theorem nodeOnline_fences (h : m.nodeOnline id = some m') : Fences m m' := by
  cases Manager.nodeOnline_way h with
  | noItem _ => exact .refl m
  | @joined _ table _ hInsert =>
    refine ⟨Nat.le_succ _, fun x nx hx => ?_⟩
    have hFind := (HashTable.find_insert (x := x) hInsert).2
    rw [show Manager.node? _ x = table.find x from rfl, hFind] at hx
    split at hx
    · obtain rfl := Option.some.inj hx
      exact Or.inr ⟨m.version, Nat.le_refl _, Nat.lt_succ_self _, rfl⟩
    · exact Or.inl ⟨nx, hx, rfl⟩
  | @known _ table _ hInsert =>
    refine ⟨Nat.le_succ _, fun x nx hx => Or.inl ⟨nx, ?_, rfl⟩⟩
    rw [show Manager.node? _ x = table.find x from rfl, HashTable.find_insert_exist hInsert] at hx
    exact hx

/-- One node goes, emptied first; the others keep their fences. -/
theorem nodeOffline_fences (m : Manager ops) (id : Id) : Fences m (m.nodeOffline id).1 := by
  unfold Manager.nodeOffline
  split
  · exact .refl m
  · rename_i item hItem
    generalize hPop : item.popAll m.groups [] = res
    obtain ⟨item', h', relative⟩ := res
    have hFence : item'.fenceId = item.fenceId := by
      rw [show item' = (item.popAll m.groups []).1 by rw [hPop]]
      rfl
    refine (Fences.setNode hItem hFence h').trans (.of_same (fun x nx hx => ?_) rfl)
    rw [show Manager.node? _ x = ((m.setNode id item' h').appNodeTable.erase id).1.find x from rfl,
      HashTable.find_erase] at hx
    split at hx
    · cases hx
    · exact hx

/-- A reset is no new incarnation. -/
theorem nodeReset_fences (m : Manager ops) (id : Id) : Fences m (m.nodeReset id) := by
  unfold Manager.nodeReset
  split
  · exact .refl m
  · rename_i item hItem
    exact .setNode hItem (show item.reset.fenceId = item.fenceId from rfl) m.groups

/-- A message for an unknown id brings a node, any other one keeps them. -/
theorem rcvd_fences {dta : Dispatch2App} {callbacks : List Callback}
    (h : m.rcvd id dta = some (m', callbacks)) : Fences m m' := by
  unfold Manager.rcvd at h
  split at h
  · obtain ⟨m₁, hm₁, heq⟩ := Option.map_eq_some_iff.mp h
    obtain ⟨rfl, -⟩ := Prod.mk.inj heq
    exact nodeOnline_fences hm₁
  · rename_i item hItem
    have hFence := item.resourceChanged_fenceId m.groups [] dta
    generalize item.resourceChanged m.groups dta [] = res at h hFence
    obtain ⟨item', h', relative, isReset⟩ := res
    simp only at h hFence
    obtain ⟨rfl, -⟩ := Prod.mk.inj (Option.some.inj h)
    have hSet := Fences.setNode hItem hFence h'
    cases isReset with
    | false => exact hSet
    | true => exact hSet.trans (nodeReset_fences _ id)

-- ---------------------------------------------------------------------------
-- Putting
-- ---------------------------------------------------------------------------

/-- The nodes that a put reports go offline one after the other. -/
theorem checkNodeOutWhenPut_fences (failRs : List (Resource Id)) (m : Manager ops) :
    Fences m (m.checkNodeOutWhenPut failRs).1 := by
  induction failRs generalizing m with
  | nil => exact .refl m
  | cons rs rest ih =>
    unfold Manager.checkNodeOutWhenPut
    split
    · exact (nodeOffline_fences m rs.id).trans (ih _)
    · exact ih m

/-- Tokens go back to a node that keeps its fence. -/
theorem tryToFreeToManager_fences (m : Manager ops) (rip : TokenReq Id) (relative : List GrpPtr) :
    Fences m (m.tryToFreeToManager rip relative).1 := by
  unfold Manager.tryToFreeToManager
  split
  · exact .refl m
  · rename_i item hItem
    exact .setNode hItem (item.freeResource_fenceId m.groups relative rip) _

/-- All requests of a group, by induction on them. -/
theorem tryToPutTokens_fences (ps : List ReqPtr) (m : Manager ops) (relative : List GrpPtr) :
    Fences m (m.tryToPutTokens relative ps).1 := by
  induction ps generalizing m relative with
  | nil => exact .refl m
  | cons p rest ih =>
    unfold Manager.tryToPutTokens
    split
    · split
      · exact (tryToFreeToManager_fences m _ relative).trans (ih _ _)
      · exact ih m relative
    · exact ih m relative

/-- Freeing a group is nothing to the nodes. -/
theorem freeGroup_fences (m : Manager ops) (gid : GrpPtr) : Fences m (m.freeGroup gid) := by
  unfold Manager.freeGroup
  split
  · exact .refl m
  · exact .of_same (fun _ _ hn => hn) rfl

/-- The nodes that a put reports go, and the others keep their fences. -/
theorem putTokenGrp_fences (m : Manager ops) (gid : GrpPtr) (failRs : Option (ResourceRing Id)) :
    Fences m (m.putTokenGrp gid failRs).1 := by
  have hOut := checkNodeOutWhenPut_fences ((failRs.map ResourceRing.walk).getD []) m
  unfold Manager.putTokenGrp
  simp only
  split
  · exact hOut
  · exact (hOut.trans (tryToPutTokens_fences _ _ [])).trans (freeGroup_fences _ gid)

-- ---------------------------------------------------------------------------
-- Getting
-- ---------------------------------------------------------------------------

/-- The nodes of a get come online with fences of their own. -/
theorem checkNodeInWhenGet_fences {rs : List (Resource Id)}
    (h : m.checkNodeInWhenGet rs = some m') : Fences m m' :=
  Manager.checkNodeInWhenGet_rule (R := Fences) .refl
    (fun hOnline hRest => (nodeOnline_fences hOnline).trans hRest) h

/-- Placing a request works on one node at most, which keeps its fence. -/
theorem tryToAllocFromManager_fences (m : Manager ops) (rip : TokenReq Id) :
    Fences m (m.tryToAllocFromManager rip).1 := by
  unfold Manager.tryToAllocFromManager
  split
  · exact .of_same (fun _ _ hn => hn) rfl
  · rename_i item hItem
    exact .setNode hItem (item.allocResource_fenceId m.groups rip.needList) _

/-- Placing all requests of a group, by induction on them. -/
theorem tryToGetTokens_fences (rips : List (TokenReq Id)) (m : Manager ops) (err : QosError) :
    Fences m (m.tryToGetTokens err rips).1 := by
  induction rips generalizing m err with
  | nil => exact .refl m
  | cons r rest ih => exact (tryToAllocFromManager_fences m r).trans (ih _ _)

/-- A get brings its nodes online before it places its requests, and may put its
group again at once. -/
theorem getTokenGrp_fences {ring : ResourceRing Id} {pri : Nat} {res : Manager.GetResult ops}
    (h : m.getTokenGrp ring pri = some res) : Fences m res.manager := by
  rcases Manager.getTokenGrp_cases h with hNothing | ⟨g, m₁, m₂, err, hMade⟩
  · refine .of_same (fun id n hn => ?_) hNothing.version
    unfold Manager.node? at hn
    rwa [hNothing.nodeTable] at hn
  · obtain ⟨_, hIn⟩ := hMade.online
    have hIn := checkNodeInWhenGet_fences hIn
    have hMade₁ : Fences m m₁ := ⟨hIn.version_le, hIn.fence⟩
    have hPlaced := hMade₁.trans (tryToGetTokens_fences g.lheadReqgrp m₁ .ok)
    rw [hMade.placed] at hPlaced
    rcases hMade.result with ⟨-, rfl⟩ | ⟨-, -, rfl⟩
    · exact hPlaced
    · exact hPlaced.trans (putTokenGrp_fences _ _ _)

end DatastorQos
