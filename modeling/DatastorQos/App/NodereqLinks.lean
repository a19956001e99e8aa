import DatastorQos.App.Node
import DatastorQos.Table.ListHead

/-!
# nodereq_list — the wait queue of one node, link by link

`sysqos_nodereq_list.c` and the `pop_all` of `sysqos_dispatch_node.c` once more,
with the links they write. `NodereqList` is what such a queue means (`meaning`).

* `QueueAt` — a well-formed queue, which every operation keeps;
* `pop_all_moves_ring` — `pop_all` takes the whole ring to another head, to be
  walked from there while the groups of its elements change lists.
-/

namespace DatastorQos

open LinkedRing

variable {Id : Type}

/-- `nodereq_list_t`, with the address of its `token_list`. -/
structure NodereqLinks where
  press     : ULong
  tokenList : ListHeadPtr
  deriving DecidableEq, Repr

namespace NodereqLinks

/-- `nodereq_list_init`. -/
def init (m : ListMem) (tokenList : ListHeadPtr) : ListMem × NodereqLinks :=
  (m.listheadInit tokenList, ⟨0, tokenList⟩)

/-- `push_back`, of an element that costs `cost`. -/
def pushBack (m : ListMem) (tokens : NodereqLinks) (rs : ListHeadPtr) (cost : ULong) :
    ListMem × NodereqLinks :=
  ((m.listheadInit rs).listAddTail rs tokens.tokenList, { tokens with press := tokens.press + cost })

/-- `front`; `none` is `NULL`. -/
def front (m : ListMem) (tokens : NodereqLinks) : Option ListHeadPtr :=
  if m.listEmpty tokens.tokenList then none else some (m.next tokens.tokenList)

/-- `erase`. -/
def erase (m : ListMem) (tokens : NodereqLinks) (rs : ListHeadPtr) (cost : ULong) :
    ListMem × NodereqLinks :=
  (m.listDel rs, { tokens with press := tokens.press - cost })

/-- `pop_front`. -/
def popFront (m : ListMem) (tokens : NodereqLinks) (cost : ListHeadPtr → ULong) :
    ListMem × NodereqLinks :=
  if m.listEmpty tokens.tokenList then (m, tokens)
  else
    let rs := m.next tokens.tokenList
    (m.listDel (m.next tokens.tokenList), { tokens with press := tokens.press - cost rs })

/-- `pop_all`. The ring loses its head, and gets the other one in its place. -/
def popAll (m : ListMem) (tokens : NodereqLinks) (head : ListHeadPtr) : ListMem × NodereqLinks :=
  if m.listEmpty tokens.tokenList then (m, tokens)
  else
    let rs := m.next tokens.tokenList
    let m := m.listDel tokens.tokenList
    let m := m.listheadInit tokens.tokenList
    (m.listAddTail head rs, { tokens with press := 0 })

/-- The loop of a node's `pop_all`: where `settle` says that the element settled
its group, the group goes to `failPermissionList` through its own list node. -/
def failOne {τ : Type} (settle : τ → ListHeadPtr → τ × Bool) (grpNode : ListHeadPtr → ListHeadPtr)
    (failPermissionList : ListHeadPtr) (s : ListMem × τ) (pos : ListHeadPtr) :
    Option ((ListMem × τ) × Bool) :=
  let (t, failed) := settle s.2 pos
  some ((if failed then s.1.listAdd (grpNode pos) failPermissionList else s.1, t), true)

/-- `permission->to_failed(permission, rip)` for the request at an address. -/
def settleFailed (rsAt : ListHeadPtr → ResourceList Id) (h : GrpHeap Id) (pos : ListHeadPtr) :
    GrpHeap Id × Bool :=
  ((h.toFailed (rsAt pos).owner).1, (h.toFailed (rsAt pos).owner).2 = .failedNode)

/-- `pop_all` of a node, with the local `fail_token_list`. -/
def popAllOfNode (fuel : Nat) (rsAt : ListHeadPtr → ResourceList Id)
    (grpNode : ListHeadPtr → ListHeadPtr) (m : ListMem) (tokens : NodereqLinks) (h : GrpHeap Id)
    (failTokenList failPermissionList : ListHeadPtr) :
    Option ((ListMem × GrpHeap Id) × NodereqLinks × List ListHeadPtr) :=
  let (m, tokens) := popAll (m.listheadInit failTokenList) tokens failTokenList
  (ListMem.listForEachSafe Prod.fst fuel failTokenList
    (failOne (settleFailed rsAt) grpNode failPermissionList) (m, h)).map
    fun (s, visited) => (s, tokens, visited)

end NodereqLinks

/-- A well-formed queue of the elements at `l`, with its meaning `q`. -/
structure QueueAt (m : ListMem) (rsAt : ListHeadPtr → ResourceList Id) (tokens : NodereqLinks)
    (q : NodereqList Id) (l : List ListHeadPtr) : Prop where
  ring     : Ring m tokens.tokenList l
  meaning  : q = ⟨tokens.press, l.map rsAt⟩
  press_eq : q.PressEq

namespace QueueAt

variable {m : ListMem} {rsAt : ListHeadPtr → ResourceList Id} {tokens : NodereqLinks}
  {q : NodereqList Id} {rs head x : ListHeadPtr} {l before after : List ListHeadPtr}

theorem listEmpty_iff (h : QueueAt m rsAt tokens q l) :
    m.listEmpty tokens.tokenList = true ↔ l = [] := by
  rw [ListMem.listEmpty, decide_eq_true_eq, h.ring.next_eq_head_iff]

theorem listEmpty_cons (h : QueueAt m rsAt tokens q (x :: l)) :
    ¬ m.listEmpty tokens.tokenList = true := fun hEmpty =>
  List.cons_ne_nil x l (h.listEmpty_iff.mp hEmpty)

-- ---------------------------------------------------------------------------
-- What each operation does to a well-formed queue
-- ---------------------------------------------------------------------------

theorem init (m : ListMem) (rsAt : ListHeadPtr → ResourceList Id) (tokenList : ListHeadPtr) :
    QueueAt (NodereqLinks.init m tokenList).1 rsAt (NodereqLinks.init m tokenList).2 .init [] where
  ring     := Ring.of_loop m tokenList
  meaning  := rfl
  press_eq := NodereqList.pressEq_init

theorem pushBack (h : QueueAt m rsAt tokens q l) (hrs : rs ∉ tokens.tokenList :: l) :
    QueueAt (NodereqLinks.pushBack m tokens rs (rsAt rs).rs.cost).1 rsAt
      (NodereqLinks.pushBack m tokens rs (rsAt rs).rs.cost).2 (q.pushBack (rsAt rs)) (l ++ [rs]) where
  ring     := (h.ring.loop_other hrs).link_last hrs
  meaning  := by simp [h.meaning, NodereqList.pushBack, NodereqLinks.pushBack]
  press_eq := h.press_eq.pushBack (rsAt rs)

theorem front (h : QueueAt m rsAt tokens q l) :
    (NodereqLinks.front m tokens).map rsAt = q.front := by
  rw [h.meaning, NodereqLinks.front]
  cases l with
  | nil => rw [if_pos (h.listEmpty_iff.mpr rfl)]; rfl
  | cons x l => rw [if_neg h.listEmpty_cons, h.ring.next_head]; rfl

theorem popFront (h : QueueAt m rsAt tokens q l) :
    QueueAt (NodereqLinks.popFront m tokens fun p => (rsAt p).rs.cost).1 rsAt
      (NodereqLinks.popFront m tokens fun p => (rsAt p).rs.cost).2 q.popFront l.tail := by
  unfold NodereqLinks.popFront
  cases l with
  | nil =>
    rw [if_pos (h.listEmpty_iff.mpr rfl)]
    exact ⟨h.ring, by rw [h.meaning]; rfl, h.press_eq.popFront⟩
  | cons x l =>
    have hNext : m.next tokens.tokenList = x := h.ring.next_head
    rw [if_neg h.listEmpty_cons, hNext]
    exact ⟨h.ring.remove_first, by rw [h.meaning]; rfl, h.press_eq.popFront⟩

theorem erase [DecidableEq Id] (h : QueueAt m rsAt tokens q (before ++ rs :: after))
    (hInj : Function.Injective rsAt) :
    QueueAt (NodereqLinks.erase m tokens rs (rsAt rs).rs.cost).1 rsAt
      (NodereqLinks.erase m tokens rs (rsAt rs).rs.cost).2 (q.erase (rsAt rs))
      (before ++ after) where
  ring     := h.ring.remove
  meaning  := by
    have hNot : rsAt rs ∉ before.map rsAt := by
      intro hMem
      obtain ⟨x, hx, heq⟩ := List.mem_map.mp hMem
      have hApart := (List.nodup_append.mp (List.nodup_cons.mp h.ring.apart).2).2.2
      exact hApart x hx rs List.mem_cons_self (hInj heq)
    rw [h.meaning]
    simp [NodereqList.erase, NodereqLinks.erase, List.erase_append_right _ hNot]
  press_eq := h.press_eq.erase (by rw [h.meaning]; simp)

/-- The splice: the old head comes out, the new one goes in before what was the
first element. -/
theorem popAll (h : QueueAt m rsAt tokens q l) (hHead : Ring m head [])
    (hApart : head ∉ tokens.tokenList :: l) :
    QueueAt (NodereqLinks.popAll m tokens head).1 rsAt (NodereqLinks.popAll m tokens head).2
        q.popAll.1 [] ∧
      (NodereqLinks.popAll m tokens head).2 = ⟨0, tokens.tokenList⟩ ∧
      Ring (NodereqLinks.popAll m tokens head).1 head l := by
  unfold NodereqLinks.popAll
  cases l with
  | nil =>
    rw [if_pos (h.listEmpty_iff.mpr rfl)]
    have hPress : tokens.press = 0 := by
      have hPress := h.press_eq
      rwa [h.meaning] at hPress
    refine ⟨⟨h.ring, by rw [h.meaning]; rfl, h.press_eq.popAll⟩, ?_, hHead⟩
    rw [← hPress]
  | cons x l =>
    have hNext : m.next tokens.tokenList = x := h.ring.next_head
    rw [if_neg h.listEmpty_cons, hNext]
    have hNot : tokens.tokenList ∉ x :: l := h.ring.head_not_mem
    -- without its head, the ring is one of its elements alone
    have hElements := h.ring.remove_head.loop_other hNot
    have hHeadNot : head ∉ x :: l := fun hMem => hApart (List.mem_cons_of_mem _ hMem)
    have hNew := hElements.link_last hHeadNot
    refine ⟨⟨?_, by rw [h.meaning]; rfl, h.press_eq.popAll⟩, rfl, ?_⟩
    · -- the old head is not among the nodes that the new one goes between
      refine (Ring.of_loop (m.listDel tokens.tokenList) tokens.tokenList).link_other ?_ ?_ ?_
      · exact fun hMem => hApart (List.mem_singleton.mp hMem ▸ List.mem_cons_self)
      · intro hMem
        rw [List.mem_singleton] at hMem
        exact hNot (hMem ▸ hElements.prev_head_mem)
      · exact fun hMem => hNot (List.mem_singleton.mp hMem ▸ List.mem_cons_self)
    · have hBack := hNew.rotate
      exact hBack

/-- The links of other lists stay. -/
theorem popAll_next (h : QueueAt m rsAt tokens q l) {y : ListHeadPtr}
    (hy : y ∉ head :: tokens.tokenList :: l) :
    (NodereqLinks.popAll m tokens head).1.next y = m.next y := by
  unfold NodereqLinks.popAll
  cases l with
  | nil => rw [if_pos (h.listEmpty_iff.mpr rfl)]
  | cons x l =>
    have hne : ∀ z ∈ head :: tokens.tokenList :: x :: l, y ≠ z := fun z hz heq => hy (heq ▸ hz)
    have hNext : m.next tokens.tokenList = x := h.ring.next_head
    rw [if_neg h.listEmpty_cons, hNext]
    have hLast := (h.ring.remove_head.loop_other h.ring.head_not_mem).prev_head_mem
    rw [Links.remove] at hLast
    have hBefore : m.prev tokens.tokenList ∈ tokens.tokenList :: x :: l := h.ring.prev_head_mem
    simp only [ListMem.listAddTail, ListMem.listAddBetween, ListMem.listheadInit, ListMem.listDel,
      ListMem.listDelBetween]
    rw [Links.link_next, Links.loop_next, Links.unlink_next,
      if_neg (hne _ (List.mem_cons_of_mem _ (List.mem_cons_of_mem _ hLast))),
      if_neg (hne _ List.mem_cons_self), if_neg (hne _ (by simp)),
      if_neg (hne _ (List.mem_cons_of_mem _ hBefore))]

end QueueAt

-- ---------------------------------------------------------------------------
-- Walking what was popped
-- ---------------------------------------------------------------------------

variable {m : ListMem} {τ : Type} {settle : τ → ListHeadPtr → τ × Bool}
  {grpNode : ListHeadPtr → ListHeadPtr} {head dest : ListHeadPtr} {l : List ListHeadPtr}

/-- The groups that are moved, and the list they go to, are not part of a ring. -/
structure MovedApart (m : ListMem) (grpNode : ListHeadPtr → ListHeadPtr) (dest head : ListHeadPtr)
    (l : List ListHeadPtr) : Prop where
  list  : dest ∉ head :: l
  first : m.next dest ∉ head :: l
  nodes : ∀ x ∈ l, grpNode x ∉ head :: l

/-- To move a group of the ring to its list leaves the ring alone. -/
theorem MovedApart.listAdd (h : MovedApart m grpNode dest head l) (hRing : Ring m head l)
    {x : ListHeadPtr} (hx : x ∈ l) :
    Ring (m.listAdd (grpNode x) dest) head l ∧
      MovedApart (m.listAdd (grpNode x) dest) grpNode dest head l := by
  refine ⟨hRing.link_other (h.nodes x hx) h.list h.first, h.list, ?_, h.nodes⟩
  have hFirst : (m.listAdd (grpNode x) dest).next dest = grpNode x := by
    rw [ListMem.listAdd, ListMem.listAddBetween, Links.link_next, if_pos rfl]
  rw [hFirst]
  exact h.nodes x hx

/-- The walk over a ring while groups of its elements are moved. -/
theorem walk_moving (hRing : Ring m head l) (hApart : MovedApart m grpNode dest head l) {fuel : Nat}
    (hFuel : l.length < fuel) (t : τ) :
    ∃ m', ListMem.listForEachSafe Prod.fst fuel head (NodereqLinks.failOne settle grpNode dest)
        (m, t) = some ((m', l.foldl (fun t x => (settle t x).1) t), l) ∧ Ring m' head l := by
  have hWork : ∀ (s s' : ListMem × τ) (x : ListHeadPtr) (more : Bool),
      Ring s.1 head l ∧ MovedApart s.1 grpNode dest head l → x ∈ l →
      NodereqLinks.failOne settle grpNode dest s x = some (s', more) →
      Ring s'.1 head l ∧ MovedApart s'.1 grpNode dest head l := by
    intro s s' x more hs hx h
    obtain ⟨rfl, -⟩ := Prod.mk.inj (Option.some.inj h)
    simp only
    split
    · exact hs.2.listAdd hs.1 hx
    · exact hs
  have hWalk : ListMem.listForEachSafe Prod.fst fuel head
      (NodereqLinks.failOne settle grpNode dest) (m, t) =
        visit (NodereqLinks.failOne settle grpNode dest) l (m, t) :=
    walk_eq (fun _ hs => hs.1) hWork hFuel ⟨hRing, hApart⟩
  have hOne : ∀ (s : ListMem × τ) (x : ListHeadPtr), NodereqLinks.failOne settle grpNode dest s x =
      some ((if (settle s.2 x).2 then s.1.listAdd (grpNode x) dest else s.1, (settle s.2 x).1),
        true) := fun _ _ => rfl
  have hAll := visit_all hOne l (m, t)
  refine ⟨_, ?_, (visit_keeps hWork ⟨hRing, hApart⟩ hAll).1⟩
  rw [hWalk, hAll]
  refine congrArg some (Prod.ext (Prod.ext rfl ?_) rfl)
  exact (List.foldl_hom Prod.snd fun _ _ => rfl).symm

/-- **`pop_all` moves the whole ring.** The queue is left empty, with no press,
and the other head has its elements, in their order. A walk from there visits
each of them once, also while groups of theirs go to another list. -/
theorem pop_all_moves_ring {rsAt : ListHeadPtr → ResourceList Id} {tokens : NodereqLinks}
    {q : NodereqList Id} (hQueue : QueueAt m rsAt tokens q l) (hHead : Ring m head [])
    (hApart : head ∉ tokens.tokenList :: l) :
    ∃ m', NodereqLinks.popAll m tokens head = (m', ⟨0, tokens.tokenList⟩) ∧
      Ring m' tokens.tokenList [] ∧ Ring m' head l ∧
      ∀ (τ : Type) (settle : τ → ListHeadPtr → τ × Bool) (grpNode : ListHeadPtr → ListHeadPtr)
        (dest : ListHeadPtr), MovedApart m' grpNode dest head l →
        ∀ (t : τ) (fuel : Nat), l.length < fuel →
          ∃ m'', ListMem.listForEachSafe Prod.fst fuel head
              (NodereqLinks.failOne settle grpNode dest) (m', t) =
                some ((m'', l.foldl (fun t x => (settle t x).1) t), l) ∧ Ring m'' head l := by
  obtain ⟨hEmpty, hTokens, hMoved⟩ := hQueue.popAll hHead hApart
  refine ⟨(NodereqLinks.popAll m tokens head).1, Prod.ext rfl hTokens, ?_, hMoved, ?_⟩
  · have hRing := hEmpty.ring
    rwa [hTokens] at hRing
  · intro τ settle grpNode dest hGroups t fuel hFuel
    exact walk_moving hMoved hGroups hFuel t

/-- The heap after the loop of `pop_all`. -/
theorem foldl_settleFailed (rsAt : ListHeadPtr → ResourceList Id) (h : GrpHeap Id)
    (failed : List GrpPtr) (l : List ListHeadPtr) :
    l.foldl (fun h x => (NodereqLinks.settleFailed rsAt h x).1) h =
      (DispatchNode.failAll h failed (l.map rsAt)).1 := by
  induction l generalizing h failed with
  | nil => rfl
  | cons x l ih =>
    rw [List.foldl_cons, List.map_cons, DispatchNode.failAll]
    split
    · rename_i h' hFailed
      rw [← ih, NodereqLinks.settleFailed, hFailed]
    · rename_i h' err _ hFailed
      rw [← ih, NodereqLinks.settleFailed, hFailed]

/-- Link by link, a node's `pop_all` does to the queue and to the groups what
`DispatchNode.popAll` says. -/
theorem popAllOfNode_eq {rsAt : ListHeadPtr → ResourceList Id} {tokens : NodereqLinks}
    {n : DispatchNode Id} (hQueue : QueueAt m rsAt tokens n.lheadNodereq l)
    (hApart : head ∉ tokens.tokenList :: l) (hList : dest ∉ head :: tokens.tokenList :: l)
    (hFirst : m.next dest ∉ head :: tokens.tokenList :: l) (hNodes : ∀ x ∈ l, grpNode x ∉ head :: l)
    {fuel : Nat} (hFuel : l.length < fuel) (h : GrpHeap Id) (failed : List GrpPtr) :
    (∃ m', NodereqLinks.popAllOfNode fuel rsAt grpNode m tokens h head dest =
      some ((m', (n.popAll h failed).2.1), ⟨0, tokens.tokenList⟩, l)) ∧
    (n.popAll h failed).1.lheadNodereq = ⟨0, []⟩ := by
  have hInit : QueueAt (m.listheadInit head) rsAt tokens n.lheadNodereq l :=
    ⟨hQueue.ring.loop_other hApart, hQueue.meaning, hQueue.press_eq⟩
  obtain ⟨hEmpty, hTokens, hMoved⟩ := hInit.popAll (Ring.of_loop m head) hApart
  have hSub : ∀ {y : ListHeadPtr}, y ∉ head :: tokens.tokenList :: l → y ∉ head :: l := by
    intro y hy hMem
    exact hy ((List.sublist_cons_self _ l).cons_cons head |>.subset hMem)
  have hGroups : MovedApart (NodereqLinks.popAll (m.listheadInit head) tokens head).1 grpNode dest
      head l := by
    refine ⟨hSub hList, ?_, hNodes⟩
    have hne : dest ≠ head := fun heq => hList (heq ▸ List.mem_cons_self)
    rw [hInit.popAll_next hList, ListMem.listheadInit, Links.loop_next, if_neg hne]
    exact hSub hFirst
  obtain ⟨m', hWalk, -⟩ : ∃ m', ListMem.listForEachSafe Prod.fst fuel head
      (NodereqLinks.failOne (NodereqLinks.settleFailed rsAt) grpNode dest)
      ((NodereqLinks.popAll (m.listheadInit head) tokens head).1, h) =
        some ((m', l.foldl (fun h x => (NodereqLinks.settleFailed rsAt h x).1) h), l) ∧
      Ring m' head l := walk_moving hMoved hGroups hFuel h
  refine ⟨⟨m', ?_⟩, ?_⟩
  · simp only [NodereqLinks.popAllOfNode, hWalk, hTokens, Option.map_some]
    rw [foldl_settleFailed rsAt h failed l]
    simp only [DispatchNode.popAll, NodereqList.popAll_popped, hQueue.meaning]
  · have hMeaning := hEmpty.meaning
    rw [hTokens] at hMeaning
    exact hMeaning

section TwoQueued

/-- A queue headed by node 0, with the requests at 1 and 2, that cost 3 and 4. -/
def twoQueued : ListMem × NodereqLinks :=
  let (m, tokens) := NodereqLinks.init ⟨id, id⟩ 0
  let (m, tokens) := NodereqLinks.pushBack m tokens 1 3
  NodereqLinks.pushBack m tokens 2 4

def twoQueuedAt (pos : ListHeadPtr) : ResourceList Nat :=
  ⟨⟨0, pos⟩, ⟨7, if pos = 1 then 3 else 4⟩⟩

theorem twoQueued_queueAt : ∃ q, QueueAt twoQueued.1 twoQueuedAt twoQueued.2 q [1, 2] := by
  have hOne := (QueueAt.init ⟨id, id⟩ twoQueuedAt 0).pushBack (show 1 ∉ [0] by decide)
  exact ⟨_, hOne.pushBack (show 2 ∉ [0, 1] by decide)⟩

/-- The head at 9 gets both; their group, at 20, goes to the list at 10. -/
theorem pop_all_moves_two_queued :
    ∃ m', NodereqLinks.popAll twoQueued.1 twoQueued.2 9 = (m', ⟨0, 0⟩) ∧ Ring m' 0 [] ∧
      Ring m' 9 [1, 2] ∧ (m'.next 9, m'.next 1, m'.next 2) = (1, 2, 9) ∧
      ∃ m'', ListMem.listForEachSafe Prod.fst 3 9
        (NodereqLinks.failOne (fun t _ => (t, true)) (fun _ => 20) 10) (m', ()) =
          some ((m'', ()), [1, 2]) := by
  obtain ⟨q, hQueue⟩ := twoQueued_queueAt
  obtain ⟨m', hPop, hEmpty, hMoved, hWalk⟩ :=
    pop_all_moves_ring hQueue (show Ring twoQueued.1 9 [] from ⟨by decide, by decide⟩) (by decide)
  have hMem : m' = (NodereqLinks.popAll twoQueued.1 twoQueued.2 9).1 := by rw [hPop]
  obtain ⟨m'', hVisited, -⟩ := hWalk Unit (fun t _ => (t, true)) (fun _ => 20) 10
    ⟨by decide, by rw [hMem]; decide, by decide⟩ () 3 (by decide)
  exact ⟨m', hPop, hEmpty, hMoved, by rw [hMem]; decide, m'', hVisited⟩

end TwoQueued

end DatastorQos
