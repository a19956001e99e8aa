import DatastorQos.Dispatcher.AppNode
import DatastorQos.Lib.Keyed

/-!
# app nodes — the apps of a dispatcher, and those that wait for tokens

The `app_node_t` objects that `token_node_cache` handed out, and the
wait-increase list of `sysqos_waitincrease_list.c`, which links the nodes that
were promised more than they have.
-/

namespace DatastorQos

open Keyed

/-- `wait_increase_list_t`: what hangs on `head`, in order. -/
structure WaitIncreaseList where
  head : List AppNodePtr
  deriving DecidableEq, Repr

namespace WaitIncreaseList

/-- `erase`; a node on no list is linked to itself. -/
def erase (q : WaitIncreaseList) (node : AppNodePtr) : WaitIncreaseList :=
  ⟨q.head.filter (· ≠ node)⟩

/-- `enqueue`. -/
def enqueue (q : WaitIncreaseList) (node : AppNodePtr) : WaitIncreaseList :=
  ⟨(q.erase node).head ++ [node]⟩

/-- `is_first_exist`. -/
def isFirstExist (q : WaitIncreaseList) : Option AppNodePtr := q.head.head?

variable {q : WaitIncreaseList} {node x : AppNodePtr}

@[simp] theorem mem_erase : x ∈ (q.erase node).head ↔ x ∈ q.head ∧ x ≠ node := by
  simp [erase]

@[simp] theorem mem_enqueue : x ∈ (q.enqueue node).head ↔ x ∈ q.head ∨ x = node := by
  by_cases hx : x = node <;> simp [enqueue, hx]

theorem nodup_erase (h : q.head.Nodup) (node : AppNodePtr) : (q.erase node).head.Nodup :=
  h.filter _

theorem nodup_enqueue (h : q.head.Nodup) (node : AppNodePtr) : (q.enqueue node).head.Nodup :=
  List.nodup_append'.mpr ⟨nodup_erase h node, List.nodup_singleton node, by simp⟩

/-- The first node leaves the others behind, in order. -/
theorem erase_first (h : q.head.Nodup) (hFirst : q.isFirstExist = some node) :
    (q.erase node).head = q.head.tail := by
  unfold isFirstExist at hFirst
  unfold erase
  cases hHead : q.head with
  | nil =>
    rw [hHead] at hFirst
    cases hFirst
  | cons x rest =>
    rw [hHead] at h hFirst
    obtain rfl := Option.some.inj hFirst
    rw [List.filter_cons_of_neg (by simp), List.tail_cons, List.filter_eq_self]
    rintro y hy
    rw [decide_eq_true_eq]
    rintro rfl
    exact (List.nodup_cons.mp h).1 hy

end WaitIncreaseList

/-- The nodes, and the list that links some of them. -/
structure AppNodes where
  nodes             : List AppNode
  lheadWaitIncrease : WaitIncreaseList
  deriving DecidableEq, Repr

namespace AppNodes

/-- The node at an address. -/
def node? (s : AppNodes) (ptr : AppNodePtr) : Option AppNode := lookup AppNode.ptr ptr s.nodes

/-- A write to the node at the address `node` has. -/
def setNode (s : AppNodes) (node : AppNode) : AppNodes :=
  { s with nodes := replace AppNode.ptr node s.nodes }

/-- `set_quota_new`. -/
def setQuotaNew (s : AppNodes) (cost : ULong) (ptr : AppNodePtr) : Option (AppNodes × ULong) := do
  let node ← s.node? ptr
  let (node, q, quota) ← node.updateTokenQuotaNew cost s.lheadWaitIncrease WaitIncreaseList.enqueue
  return ({ s.setNode node with lheadWaitIncrease := q }, quota)

variable {s s' : AppNodes} {ptr x : AppNodePtr} {node : AppNode}

theorem ptr_of_node? (h : s.node? ptr = some node) : node.ptr = ptr := key_of_lookup h

theorem node?_setNode (node : AppNode) (h : (s.node? node.ptr).isSome) :
    (s.setNode node).node? x = if x = node.ptr then some node else s.node? x := by
  refine (lookup_replace node x s.nodes).trans ?_
  split
  · rename_i hx
    subst hx
    obtain ⟨node', hNode⟩ := Option.isSome_iff_exists.mp h
    rw [show lookup AppNode.ptr node.ptr s.nodes = some node' from hNode]
    rfl
  · rfl

/-- A message is a write to the node that gets it. -/
theorem node?_setNode_rcvd {a2d : App2Dispatch} (hNode : s.node? ptr = some node) :
    (s.setNode (node.rcvd a2d 0).1).node? x =
      if x = ptr then some (node.rcvd a2d 0).1 else s.node? x := by
  have hPtr : (node.rcvd a2d 0).1.ptr = ptr := by
    rw [← ptr_of_node? hNode]
    rcases node.rcvd_cases a2d 0 with ⟨⟨press, heq⟩, -⟩ | ⟨-, -, heq⟩ <;> rw [heq]
  rw [node?_setNode _ (by rw [hPtr, hNode]; rfl), hPtr]

theorem node?_cons (s : AppNodes) (node : AppNode) (x : AppNodePtr) :
    ({ s with nodes := node :: s.nodes } : AppNodes).node? x =
      if x = node.ptr then some node else s.node? x := by
  unfold node? lookup
  rw [List.find?_cons]
  by_cases hx : x = node.ptr
  · simp [hx]
  · simp [hx, Ne.symm hx]

/-- What a new quota does: the node gets it, under its limit, and all others
stay as they are. -/
theorem setQuotaNew_eq {quota quota' : ULong} (h : s.setQuotaNew quota ptr = some (s', quota')) :
    ∃ node version, s.node? ptr = some node ∧ node.limit.min ≤ quota ∧
      quota' = node.newQuotaUnderLimit quota ∧ node.limit.min ≤ quota' ∧
      ∀ x, s'.node? x =
        if x = ptr then some { node with tokenQuotaNew := quota', version := version }
        else s.node? x := by
  obtain ⟨node, hNode, h⟩ := Option.bind_eq_some_iff.mp h
  obtain ⟨⟨node', q, quota₁⟩, hSet, h⟩ := Option.bind_eq_some_iff.mp h
  simp only [Option.pure_def, Option.some.injEq, Prod.mk.injEq] at h
  obtain ⟨rfl, rfl⟩ := h
  obtain ⟨hMin, hQuota, hMin', version, rfl⟩ := AppNode.updateTokenQuotaNew_eq hSet
  refine ⟨node, version, hNode, hMin, hQuota, hMin', fun x => ?_⟩
  have hPtr := ptr_of_node? hNode
  subst hPtr
  exact node?_setNode _ (by simp [hNode])

/-- A node waits for a higher target than it had. -/
theorem setQuotaNew_list {quota quota' : ULong} (h : s.setQuotaNew quota ptr = some (s', quota'))
    (hNode : s.node? ptr = some node) :
    s'.lheadWaitIncrease = if node.tokenQuotaNew < quota' then s.lheadWaitIncrease.enqueue ptr
      else s.lheadWaitIncrease := by
  obtain ⟨node₀, hNode', h⟩ := Option.bind_eq_some_iff.mp h
  obtain rfl := Option.some.inj (hNode'.symm.trans hNode)
  obtain ⟨⟨node', q, quota₁⟩, hSet, h⟩ := Option.bind_eq_some_iff.mp h
  simp only [Option.pure_def, Option.some.injEq, Prod.mk.injEq] at h
  obtain ⟨rfl, rfl⟩ := h
  unfold AppNode.updateTokenQuotaNew at hSet
  split at hSet
  · simp only [Option.some.injEq, Prod.mk.injEq] at hSet
    obtain ⟨-, rfl, rfl⟩ := hSet
    rw [← ptr_of_node? hNode]
    exact node₀.moveTokenQuotaNew_snd _ _ _
  · cases hSet

end AppNodes

end DatastorQos
