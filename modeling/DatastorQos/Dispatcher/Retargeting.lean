import DatastorQos.Dispatcher.DispManager

/-!
# datastor_qos — what a rebalance leaves alone

A rebalance writes the targets of the nodes, their versions, and the part of
each node that it works on. `Retargeted` says that nothing else changed; it is
kept along both passes of `update`, visit by visit.
-/

namespace DatastorQos

open TokenUpdateCtx

/-- The node without what a rebalance writes. -/
def AppNode.untargeted (node : AppNode) : AppNode :=
  { node with updatenode := ⟨0, 0, 0⟩, tokenQuotaNew := 0, version := 0 }

section

variable {node node' : AppNode} (h : node'.untargeted = node.untargeted)
include h

theorem AppNode.ptr_of_untargeted : node'.ptr = node.ptr := by
  rw [show node'.ptr = node'.untargeted.ptr from rfl, h]
  rfl

theorem AppNode.tokenQuota_of_untargeted : node'.tokenQuota = node.tokenQuota := by
  rw [show node'.tokenQuota = node'.untargeted.tokenQuota from rfl, h]
  rfl

theorem AppNode.press_of_untargeted : node'.press = node.press := by
  rw [show node'.press = node'.untargeted.press from rfl, h]
  rfl

end

/-- No node changed in anything but its target. -/
def Retargeted (s s' : AppNodes) : Prop :=
  ∀ ptr, (s'.node? ptr).map AppNode.untargeted = (s.node? ptr).map AppNode.untargeted

namespace Retargeted

variable {s s₁ s' : AppNodes} {ptr : AppNodePtr} {node node' : AppNode}

theorem refl (s : AppNodes) : Retargeted s s := fun _ => rfl

/-- Two operations that set targets. -/
theorem trans (h : Retargeted s s₁) (h' : Retargeted s₁ s') : Retargeted s s' :=
  fun ptr => (h' ptr).trans (h ptr)

/-- The node at an address is still there, with everything but its target. -/
theorem node? (h : Retargeted s s') (hNode : s.node? ptr = some node) :
    ∃ node', s'.node? ptr = some node' ∧ node'.untargeted = node.untargeted := by
  have hSame := h ptr
  rw [hNode] at hSame
  exact Option.map_eq_some_iff.mp hSame

/-- Only one node was written, and only its target. -/
theorem of_node? (h : ∀ x, s'.node? x = if x = ptr then some node' else s.node? x)
    (hNode : s.node? ptr = some node) (hSame : node'.untargeted = node.untargeted) :
    Retargeted s s' := by
  intro x
  by_cases hx : x = ptr
  · rw [h, if_pos hx, hx, hNode, Option.map_some, Option.map_some, hSame]
  · rw [h, if_neg hx]

/-- Writing back one node with another target. -/
theorem setNode (node' : AppNode) (hNode : s.node? ptr = some node)
    (hSame : node'.untargeted = node.untargeted) : Retargeted s (s.setNode node') := by
  obtain rfl : node'.ptr = ptr :=
    (AppNode.ptr_of_untargeted hSame).trans (AppNodes.ptr_of_node? hNode)
  exact of_node? (fun x => AppNodes.node?_setNode node' (Option.isSome_of_eq_some hNode))
    hNode hSame

/-- The quota that a pass notes down is not the node's own. -/
theorem setTmpTokenQuota (hNode : s.node? ptr = some node) (quota : ULong) :
    Retargeted s (s.setNode (node.setTmpTokenQuota quota)) :=
  setNode (node.setTmpTokenQuota quota) hNode rfl

/-- The call that a rebalance makes for each node. -/
theorem setQuotaNew {quota quota' : ULong} (h : s.setQuotaNew quota ptr = some (s', quota')) :
    Retargeted s s' := by
  obtain ⟨node, version, hNode, -, -, -, hLook⟩ := AppNodes.setQuotaNew_eq h
  exact of_node? hLook hNode rfl

/-- A pass changes nothing else if no visit does. -/
theorem spend {updateNode : AppNodes → ULong → AppNodePtr → Option (AppNodes × ULong)}
    (hNode : ∀ s tokenLeft pos s' used, updateNode s tokenLeft pos = some (s', used) →
      Retargeted s s')
    {ptrs visited : List AppNodePtr} {tokenLeft tokenLeft' : ULong}
    (h : TokenUpdateCtx.spend updateNode ptrs tokenLeft s = some (s', tokenLeft', visited)) :
    Retargeted s s' := by
  induction ptrs generalizing s tokenLeft tokenLeft' visited with
  | nil =>
    simp only [TokenUpdateCtx.spend, Option.some.injEq, Prod.mk.injEq] at h
    obtain ⟨rfl, -, -⟩ := h
    exact refl s
  | cons pos rest ih =>
    obtain ⟨⟨s₁, used⟩, hFirst, h⟩ := Option.bind_eq_some_iff.mp h
    have hHead := hNode _ _ _ _ _ hFirst
    simp only at h
    split at h
    · simp only [Option.pure_def, Option.some.injEq, Prod.mk.injEq] at h
      obtain ⟨rfl, -, -⟩ := h
      exact hHead
    · obtain ⟨⟨s₂, tokenLeft₂, visited₂⟩, hRest, h⟩ := Option.bind_eq_some_iff.mp h
      simp only [Option.pure_def, Option.some.injEq, Prod.mk.injEq] at h
      obtain ⟨rfl, -, -⟩ := h
      exact hHead.trans (ih hRest)

/-- One node of the first pass, -/
theorem updateNodeQuota {tokenTotal totalWeight used : ULong}
    (h : TokenUpdateCtx.updateNodeQuota AppNodes.setQuotaNew tokenTotal totalWeight s ptr =
      some (s', used)) : Retargeted s s' := by
  obtain ⟨node, hNode, h⟩ := Option.bind_eq_some_iff.mp h
  split at h
  · obtain ⟨⟨s₁, quota⟩, hSet, h⟩ := Option.bind_eq_some_iff.mp h
    simp only [Option.pure_def, Option.some.injEq, Prod.mk.injEq] at h
    obtain ⟨rfl, -⟩ := h
    exact (setTmpTokenQuota hNode _).trans (setQuotaNew hSet)
  · cases h

/-- and one of the second. -/
theorem updateNodeQuotaLeft {tokenLeft used : ULong}
    (h : TokenUpdateCtx.updateNodeQuotaLeft AppNodes.setQuotaNew tokenLeft s ptr =
      some (s', used)) : Retargeted s s' := by
  obtain ⟨node, hNode, h⟩ := Option.bind_eq_some_iff.mp h
  obtain ⟨⟨s₁, quota⟩, hSet, h⟩ := Option.bind_eq_some_iff.mp h
  simp only [Option.pure_def, Option.some.injEq, Prod.mk.injEq] at h
  obtain ⟨rfl, -⟩ := h
  exact (setTmpTokenQuota hNode _).trans (setQuotaNew hSet)

/-- Both passes, each by induction on its nodes. -/
theorem update {ctx ctx' : TokenUpdateCtx} {assigned : List AppNodePtr}
    (h : ctx.update s AppNodes.setQuotaNew = some (ctx', s', assigned)) : Retargeted s s' := by
  obtain ⟨⟨s₁, tokenLeft, visited⟩, hFirst, h⟩ := Option.bind_eq_some_iff.mp h
  obtain ⟨⟨s₂, tokenLeft₂, visited₂⟩, hSecond, h⟩ := Option.bind_eq_some_iff.mp h
  simp only [Option.pure_def, Option.some.injEq, Prod.mk.injEq] at h
  obtain ⟨-, rfl, -⟩ := h
  exact (spend (fun _ _ _ _ _ => updateNodeQuota) hFirst).trans
    (spend (fun _ _ _ _ _ => updateNodeQuotaLeft) hSecond)

/-- Collecting the nodes writes what the passes start from, and no target. -/
theorem addResources {ctx ctx' : TokenUpdateCtx} {ptrs : List AppNodePtr}
    (h : ctx.addResources s ptrs = some (ctx', s')) : Retargeted s s' := by
  induction ptrs generalizing ctx s with
  | nil =>
    simp only [TokenUpdateCtx.addResources, Option.some.injEq, Prod.mk.injEq] at h
    obtain ⟨-, rfl⟩ := h
    exact refl s
  | cons ptr ptrs ih =>
    obtain ⟨⟨ctx₁, s₁⟩, hAdd, h⟩ := Option.bind_eq_some_iff.mp h
    obtain ⟨node, hNode, hAdd⟩ := Option.bind_eq_some_iff.mp hAdd
    simp only [Option.pure_def, Option.some.injEq, Prod.mk.injEq] at hAdd
    obtain ⟨rfl, rfl⟩ := hAdd
    exact (setNode node.initUpdateNode hNode rfl).trans (ih h)

end Retargeted

variable {Id : Type} {ops : IdOps Id} {m m' : DispManager ops}

/-- A rebalance of the dispatcher. -/
theorem DispManager.retargeted (h : m.updateNodesTokenQuotaNew = some m') :
    ∃ apps updateCtx, m' = { m with apps := apps, updateCtx := updateCtx } ∧
      Retargeted m.apps apps := by
  obtain ⟨⟨ctx₁, s₁⟩, hAdd, h⟩ := Option.bind_eq_some_iff.mp h
  obtain ⟨⟨ctx₂, s₂, assigned⟩, hUpdate, h⟩ := Option.bind_eq_some_iff.mp h
  simp only [Option.pure_def, Option.some.injEq] at h
  exact ⟨s₂, ctx₂, h.symm, (Retargeted.addResources hAdd).trans (Retargeted.update hUpdate)⟩

end DatastorQos
