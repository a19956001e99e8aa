import DatastorQos.Dispatcher.WaitIncrease
import DatastorQos.Table.ListHead

/-!
# waitincrease_list — the wait-increase list link by link

`sysqos_waitincrease_list.c` once more, with the links it follows and writes,
which are inside the app nodes, and the dispatcher once more, with that memory in
the place of the list. A node on no list is linked to itself. What reads or writes
a node that is not there does not return.

* `WaitAt` — a list in memory: a ring of nodes that are there, and all others on
  their own;
* `wait_links_refine` — in all runs the dispatcher does with the links what it
  does with the list, and the nodes that are there are those that are online.
-/

namespace DatastorQos

open LinkedRing Runs

variable {Id : Type} {ops : IdOps Id}

/-- Where the links are. -/
structure AppLayout where
  /-- `&q->head` -/
  head           : ListHeadPtr
  /-- `&node->list_wait_increase` -/
  listOf         : AppNodePtr → ListHeadPtr
  /-- `container_of(list, app_node_t, list_wait_increase)` -/
  nodeOf         : ListHeadPtr → AppNodePtr
  nodeOf_listOf  : ∀ node, nodeOf (listOf node) = node
  listOf_ne_head : ∀ node, listOf node ≠ head

theorem AppLayout.listOf_injective (L : AppLayout) : Function.Injective L.listOf :=
  Function.LeftInverse.injective L.nodeOf_listOf

/-- `wait_increase_list_t` in memory, with the app nodes that are there. -/
structure WaitMem where
  links : ListMem
  there : AppNodePtr → Bool

namespace WaitMem

variable (L : AppLayout)

-- ---------------------------------------------------------------------------
-- sysqos_waitincrease_list.c
-- ---------------------------------------------------------------------------

/-- There is a `struct list_head` at this address. -/
def There (s : WaitMem) (p : ListHeadPtr) : Prop :=
  p = L.head ∨ L.listOf (L.nodeOf p) = p ∧ s.there (L.nodeOf p) = true

instance (s : WaitMem) (p : ListHeadPtr) : Decidable (s.There L p) :=
  inferInstanceAs (Decidable (_ ∨ _))

/-- A write to links, which reads or writes all of `ps`. -/
def write (s : WaitMem) (ps : List ListHeadPtr) (links : ListMem) : Option WaitMem :=
  if ∀ p ∈ ps, s.There L p then some { s with links := links } else none

/-- `list_del`. -/
def listDel (s : WaitMem) (entry : ListHeadPtr) : Option WaitMem :=
  s.write L [entry, s.links.prev entry, s.links.next entry] (s.links.listDel entry)

/-- `LISTHEAD_INIT`. -/
def listheadInit (s : WaitMem) (head : ListHeadPtr) : Option WaitMem :=
  s.write L [head] (s.links.listheadInit head)

/-- `list_add_tail`. -/
def listAddTail (s : WaitMem) (newNode head : ListHeadPtr) : Option WaitMem :=
  s.write L [newNode, head, s.links.prev head] (s.links.listAddTail newNode head)

/-- `wait_increase_list_init`. -/
def init (links : ListMem) : WaitMem where
  links := links.listheadInit L.head
  there := fun _ => false

/-- `erase`. -/
def erase (s : WaitMem) (node : AppNodePtr) : Option WaitMem := do
  let s ← s.listDel L (L.listOf node)
  s.listheadInit L (L.listOf node)

/-- `enqueue`. -/
def enqueue (s : WaitMem) (node : AppNodePtr) : Option WaitMem := do
  let s ← s.listDel L (L.listOf node)
  let s ← s.listheadInit L (L.listOf node)
  s.listAddTail L (L.listOf node) L.head

/-- `is_first_exist`, with the node it finds. -/
def isFirstExist (s : WaitMem) : Option AppNodePtr :=
  if s.links.listEmpty L.head then none else some (L.nodeOf (s.links.next L.head))

/-- The cache hands out a node, and `app_node_init` sets its links. -/
def appNodeInit (s : WaitMem) (node : AppNodePtr) : WaitMem where
  links := s.links.listheadInit (L.listOf node)
  there := Function.update s.there node true

/-- The node is gone. -/
def gave (s : WaitMem) (node : AppNodePtr) : WaitMem :=
  { s with there := Function.update s.there node false }

/-- The cache takes a node back. -/
def freeNode (s : WaitMem) (node : AppNodePtr) : Option WaitMem :=
  if s.there node then some (s.gave node) else none

variable {L} {s : WaitMem} {node x : AppNodePtr}

theorem there_appNodeInit :
    (s.appNodeInit L node).there x = if x = node then true else s.there x :=
  Function.update_apply ..

theorem there_gave : (s.gave node).there x = if x = node then false else s.there x :=
  Function.update_apply ..

end WaitMem

-- ---------------------------------------------------------------------------
-- The list in memory
-- ---------------------------------------------------------------------------

/-- The list in memory. -/
structure WaitAt (L : AppLayout) (s : WaitMem) (q : WaitIncreaseList) : Prop where
  ring  : Ring s.links L.head (q.head.map L.listOf)
  alone : ∀ node, s.there node = true → node ∉ q.head → Ring s.links (L.listOf node) []
  there : ∀ node ∈ q.head, s.there node = true

namespace WaitAt

open WaitMem

variable {L : AppLayout} {s s' : WaitMem} {q : WaitIncreaseList} {node x : AppNodePtr}
  {p : ListHeadPtr} {ps : List ListHeadPtr} {links : ListMem}

theorem write_eq (h : ∀ p ∈ ps, s.There L p) : s.write L ps links = some { s with links := links } :=
  if_pos h

theorem there_of_node (h : s.there node = true) : s.There L (L.listOf node) :=
  Or.inr ⟨congrArg L.listOf (L.nodeOf_listOf node), (L.nodeOf_listOf node).symm ▸ h⟩

/-- All that the list is linked with is there. -/
theorem there_of_mem (h : WaitAt L s q) (hp : p ∈ L.head :: q.head.map L.listOf) :
    s.There L p := by
  rcases List.mem_cons.mp hp with rfl | hp
  · exact Or.inl rfl
  · obtain ⟨node, hNode, rfl⟩ := List.mem_map.mp hp
    exact there_of_node (h.there node hNode)

theorem nodup (h : WaitAt L s q) : q.head.Nodup :=
  List.Nodup.of_map L.listOf (List.nodup_cons.mp h.ring.apart).2

/-- A node that does not wait is not in the ring. -/
theorem listOf_not_mem (L : AppLayout) (hNode : node ∉ q.head) :
    L.listOf node ∉ L.head :: q.head.map L.listOf := by
  intro hMem
  rcases List.mem_cons.mp hMem with heq | hMem
  · exact L.listOf_ne_head node heq
  · exact hNode ((List.mem_map_of_injective L.listOf_injective).mp hMem)

/-- A list that nobody waits on. -/
theorem init (L : AppLayout) (links : ListMem) : WaitAt L (.init L links) ⟨[]⟩ where
  ring  := Ring.of_loop links L.head
  alone := fun _ hThere => by cases hThere
  there := fun _ hMem => by cases hMem

/-- `list_del` of a node and `LISTHEAD_INIT` do nothing to a ring that it is not
linked with. -/
theorem ring_erase {m : ListMem} {head entry : ListHeadPtr} {l : List ListHeadPtr}
    (h : Ring m head l) (hEntry : entry ∉ head :: l) (hNext : m.next entry ∉ head :: l)
    (hPrev : m.prev entry ∉ head :: l) : Ring ((m.listDel entry).listheadInit entry) head l :=
  (h.remove_other hNext hPrev).loop_other hEntry

/-- What `erase` leaves of the links, wherever the node was. -/
theorem erased (h : WaitAt L s q) (hNode : s.there node = true) :
    WaitAt L { s with links := (s.links.listDel (L.listOf node)).listheadInit (L.listOf node) }
      (q.erase node) := by
  have hLeft : ∀ {x}, x ∈ (q.erase node).head → x ∈ q.head := fun hx =>
    (WaitIncreaseList.mem_erase.mp hx).1
  by_cases hMem : node ∈ q.head
  · obtain ⟨before, after, hSplit⟩ := List.append_of_mem hMem
    have hNodup := h.nodup
    rw [hSplit] at hNodup
    have hGone : node ∉ before ++ after := (List.nodup_middle.mp hNodup).notMem
    have hErase : (q.erase node).head = before ++ after := by
      rw [WaitIncreaseList.erase, hSplit, List.filter_append, List.filter_cons_of_neg (by simp),
        ← List.filter_append, List.filter_eq_self]
      exact fun x hx => decide_eq_true fun heq => hGone (heq ▸ hx)
    have hIn : L.listOf node ∈ L.head :: q.head.map L.listOf :=
      List.mem_cons_of_mem _ (List.mem_map_of_mem hMem)
    obtain ⟨hNext, hPrev⟩ := h.ring.links_mem hIn
    have hRing := h.ring
    rw [hSplit, List.map_append, List.map_cons] at hRing
    refine ⟨?_, fun x hThere hx => ?_, fun x hx => h.there x (hLeft hx)⟩
    · rw [hErase, List.map_append]
      refine hRing.remove.loop_other fun hStill => ?_
      rw [← List.map_append] at hStill
      exact listOf_not_mem L (q := ⟨before ++ after⟩) hGone hStill
    · by_cases heq : x = node
      · rw [heq]
        exact Ring.of_loop _ _
      · have hOut : x ∉ q.head := fun hIn => hx (WaitIncreaseList.mem_erase.mpr ⟨hIn, heq⟩)
        have hApart : ∀ p ∈ L.head :: q.head.map L.listOf, p ∉ [L.listOf x] := fun p hp hpx =>
          listOf_not_mem L hOut (List.mem_singleton.mp hpx ▸ hp)
        exact ring_erase (h.alone x hThere hOut) (hApart _ hIn) (hApart _ hNext) (hApart _ hPrev)
  · -- it is its own neighbour
    have hOwn := h.alone node hNode hMem
    obtain ⟨hNext, hPrev⟩ := hOwn.links_mem List.mem_cons_self
    rw [List.mem_singleton] at hNext hPrev
    have hErase : (q.erase node).head = q.head :=
      List.filter_eq_self.mpr fun x hx => decide_eq_true fun heq => hMem (heq ▸ hx)
    have hOther : ∀ {head l}, Ring s.links head l → L.listOf node ∉ head :: l →
        Ring ((s.links.listDel (L.listOf node)).listheadInit (L.listOf node)) head l :=
      fun hRing hApart => ring_erase hRing hApart (hNext.symm ▸ hApart) (hPrev.symm ▸ hApart)
    refine ⟨?_, fun x hThere hx => ?_, fun x hx => h.there x (hLeft hx)⟩
    · rw [hErase]
      exact hOther h.ring (listOf_not_mem L hMem)
    · rw [hErase] at hx
      by_cases heq : x = node
      · rw [heq]
        exact Ring.of_loop _ _
      · refine hOther (h.alone x hThere hx) fun hSame => heq ?_
        exact (L.listOf_injective (List.mem_singleton.mp hSame)).symm

/-- The links of a node that is there lead to what is there. -/
theorem there_neighbours (h : WaitAt L s q) (hNode : s.there node = true) :
    ∀ p ∈ [L.listOf node, s.links.prev (L.listOf node), s.links.next (L.listOf node)],
      s.There L p := by
  have hRing : ∃ ps : List ListHeadPtr, (∀ p ∈ ps, s.There L p) ∧ s.links.prev (L.listOf node) ∈ ps ∧
      s.links.next (L.listOf node) ∈ ps := by
    by_cases hMem : node ∈ q.head
    · obtain ⟨hNext, hPrev⟩ := h.ring.links_mem (List.mem_cons_of_mem _ (List.mem_map_of_mem hMem))
      exact ⟨_, fun p hp => h.there_of_mem hp, hPrev, hNext⟩
    · obtain ⟨hNext, hPrev⟩ := (h.alone node hNode hMem).links_mem List.mem_cons_self
      refine ⟨_, fun p hp => ?_, hPrev, hNext⟩
      rw [List.mem_singleton.mp hp]
      exact there_of_node hNode
  obtain ⟨ps, hThere, hPrev, hNext⟩ := hRing
  simp only [List.forall_mem_cons, List.not_mem_nil, false_imp_iff, implies_true, and_true]
  exact ⟨there_of_node hNode, hThere _ hPrev, hThere _ hNext⟩

/-- **Erasing** a node, on the list or not. -/
theorem erase (h : WaitAt L s q) (hNode : s.there node = true) :
    ∃ s', s.erase L node = some s' ∧ s'.there = s.there ∧ WaitAt L s' (q.erase node) := by
  have hAt := h.erased hNode
  refine ⟨_, ?_, ?_, hAt⟩
  · unfold WaitMem.erase WaitMem.listDel
    rw [write_eq (h.there_neighbours hNode)]
    exact write_eq (s := { s with links := s.links.listDel (L.listOf node) })
      (List.forall_mem_singleton.mpr (there_of_node hNode))
  · rfl

/-- **Putting** a node at the end, on the list or not. -/
theorem enqueue (h : WaitAt L s q) (hNode : s.there node = true) :
    ∃ s', s.enqueue L node = some s' ∧ s'.there = s.there ∧ WaitAt L s' (q.enqueue node) := by
  obtain ⟨s₁, hErase, hSame, hAt⟩ := h.erase hNode
  have hNode₁ : s₁.there node = true := hSame ▸ hNode
  have hOut : node ∉ (q.erase node).head := fun hMem => (WaitIncreaseList.mem_erase.mp hMem).2 rfl
  have hNew := listOf_not_mem L hOut
  refine ⟨{ s₁ with links := s₁.links.listAddTail (L.listOf node) L.head }, ?_, hSame, ?_, ?_, ?_⟩
  · have hThere : ∀ p ∈ [L.listOf node, L.head, s₁.links.prev L.head], s₁.There L p := by
      simp only [List.forall_mem_cons, List.not_mem_nil, false_imp_iff, implies_true, and_true]
      exact ⟨there_of_node hNode₁, Or.inl rfl, hAt.there_of_mem hAt.ring.prev_head_mem⟩
    unfold WaitMem.erase at hErase
    obtain ⟨s₀, hDel, hInit⟩ := Option.bind_eq_some_iff.mp hErase
    unfold WaitMem.enqueue
    rw [hDel]
    show (s₀.listheadInit L (L.listOf node) >>= _) = _
    rw [hInit]
    exact write_eq hThere
  · rw [WaitIncreaseList.enqueue, List.map_append]
    exact hAt.ring.link_last hNew
  · intro x hThere hx
    rw [WaitIncreaseList.mem_enqueue, not_or] at hx
    have hxOut : x ∉ (q.erase node).head := fun hMem => hx.1 (WaitIncreaseList.mem_erase.mp hMem).1
    have hApart : ∀ p ∈ L.head :: (q.erase node).head.map L.listOf, p ∉ [L.listOf x] :=
      fun p hp hpx => listOf_not_mem L hxOut (List.mem_singleton.mp hpx ▸ hp)
    refine (hAt.alone x hThere hxOut).link_other (fun hSame => hx.2 ?_)
      (hApart _ hAt.ring.prev_head_mem) (hApart _ List.mem_cons_self)
    exact (L.listOf_injective (List.mem_singleton.mp hSame)).symm
  · intro x hx
    rcases WaitIncreaseList.mem_enqueue.mp hx with hx | rfl
    · exact hSame ▸ h.there x hx
    · exact hNode₁

theorem isFirstExist_eq (h : WaitAt L s q) : s.isFirstExist L = q.isFirstExist := by
  have hNext := h.ring.next_head
  unfold WaitMem.isFirstExist WaitIncreaseList.isFirstExist ListMem.listEmpty
  cases hHead : q.head with
  | nil =>
    rw [hHead] at hNext
    rw [hNext]
    simp
  | cons node rest =>
    rw [hHead, List.map_cons, List.headD_cons] at hNext
    rw [hNext, if_neg (by simpa using L.listOf_ne_head node), L.nodeOf_listOf]
    rfl

/-- A new node is on its own. -/
theorem appNodeInit (h : WaitAt L s q) (hNew : s.there node = false) :
    WaitAt L (s.appNodeInit L node) q := by
  have hOut : node ∉ q.head := fun hMem => by simp [h.there node hMem] at hNew
  refine ⟨h.ring.loop_other (listOf_not_mem L hOut), fun x hThere hx => ?_, fun x hx => ?_⟩
  · by_cases heq : x = node
    · rw [heq]
      exact Ring.of_loop _ _
    · rw [there_appNodeInit, if_neg heq] at hThere
      refine (h.alone x hThere hx).loop_other fun hSame => heq ?_
      exact (L.listOf_injective (List.mem_singleton.mp hSame)).symm
  · have hne : x ≠ node := by
      rintro rfl
      exact hOut hx
    rw [there_appNodeInit, if_neg hne]
    exact h.there x hx

/-- A node that does not wait can go. -/
theorem freeNode (h : WaitAt L s q) (hNode : s.there node = true) (hOut : node ∉ q.head) :
    s.freeNode node = some (s.gave node) ∧ WaitAt L (s.gave node) q := by
  refine ⟨if_pos hNode, h.ring, fun x hThere hx => h.alone x ?_ hx, fun x hx => ?_⟩
  · rw [there_gave] at hThere
    split at hThere
    · cases hThere
    · exact hThere
  · have hne : x ≠ node := by
      rintro rfl
      exact hOut hx
    rw [there_gave, if_neg hne]
    exact h.there x hx

end WaitAt

-- ---------------------------------------------------------------------------
-- The dispatcher
-- ---------------------------------------------------------------------------

/-- A dispatcher with its wait-increase list in memory. The list of `disp` is
empty, and nothing reads it. -/
structure DispLinks (ops : IdOps Id) where
  disp : DispManager ops
  wait : WaitMem

namespace DispLinks

variable (L : AppLayout)

/-- `wait_increase_erase`. -/
def waitIncreaseErase (d : DispManager ops × Option WaitMem) (node : AppNodePtr) :
    DispManager ops × Option WaitMem :=
  (d.1, d.2.bind fun wait => wait.erase L node)

/-- `global_try_alloc`. -/
def globalTryAlloc (d : DispManager ops × Option WaitMem) (cost : ULong) :
    (DispManager ops × Option WaitMem) × ULong :=
  (((d.1.globalTryAlloc cost).1, d.2), (d.1.globalTryAlloc cost).2)

/-- `try_clear_wait_increase`, for at most `fuel` rounds of its loop. -/
def tryClearWaitIncrease : Nat → DispLinks ops → Option (DispLinks ops)
  | 0, _ => none
  | fuel + 1, d =>
    match d.wait.isFirstExist L with
    | none => some d
    | some ptr => do
      let node ← d.disp.apps.node? ptr
      let ((disp, wait), isContinue) :=
        node.updateTokenQuota (d.disp, some d.wait) globalTryAlloc (waitIncreaseErase L)
      let wait ← wait
      if isContinue then tryClearWaitIncrease fuel ⟨disp, wait⟩ else some ⟨disp, wait⟩

/-- `set_quota_new`. -/
def setQuotaNew (d : DispLinks ops) (cost : ULong) (ptr : AppNodePtr) :
    Option (DispLinks ops × ULong) := do
  let node ← d.disp.apps.node? ptr
  let (node, wait, quota) ← node.updateTokenQuotaNew cost (some d.wait)
    fun wait ptr => wait.bind fun wait => wait.enqueue L ptr
  let wait ← wait
  return (⟨{ d.disp with apps := d.disp.apps.setNode node }, wait⟩, quota)

/-- `node_online`, up to `update_policy`. A node that does not get in goes back
to the cache with its links. -/
def onlineSection (d : DispLinks ops) (id : Id) : Option (DispLinks ops × Bool) := do
  let (disp, done) ← d.disp.onlineSection id
  return (⟨disp, if done then d.wait.appNodeInit L d.disp.nextNode else d.wait⟩, done)

/-- A node goes offline, as `DispManager.leave` has it, and back to the cache. -/
def leave (d : DispLinks ops) (id : Id) : Option (DispLinks ops) :=
  match d.disp.tab.erase id with
  | (tab, some ptr) => do
    let wait ← d.wait.erase L ptr
    let wait ← wait.freeNode ptr
    return ⟨{ d.disp with tab := tab }, wait⟩
  | (_, none) => some d

/-- What a call leaves behind, if it returns. -/
def LinkStep (d : DispLinks ops) : WaitCall Id → DispLinks ops → Prop
  | .increase cost, d' => d' = { d with disp := d.disp.increaseSection cost }
  | .reduce cost, d' => d' = { d with disp := (d.disp.reduceSection cost).1 }
  | .online id, d' => ∃ done, d.onlineSection L id = some (d', done)
  | .setQuotaNew quota ptr, d' => (∃ id, d.disp.tab.find id = some ptr) ∧
      ∃ quota', d.setQuotaNew L quota ptr = some (d', quota')
  | .clearWaitIncrease, d' => ∃ fuel, d.tryClearWaitIncrease L fuel = some d'
  | .rcvd id a2d, d' => ∃ disp, d.disp.rcvdSection id a2d = some disp ∧ d' = { d with disp := disp }
  | .leave id, d' => d.leave L id = some d'

end DispLinks

/-- Links are of no use to anybody before `wait_increase_list_init`. -/
def linkSystem (L : AppLayout) (ops : IdOps Id) : System (DispLinks ops) (WaitCall Id) where
  init d := (waitSystem ops).init d.disp ∧ ∃ links, d.wait = .init L links
  step d call d' := d.LinkStep L call d'

-- ---------------------------------------------------------------------------
-- What does not look at the list
-- ---------------------------------------------------------------------------

/-- The dispatcher without the list. -/
def DispManager.unlisted (m : DispManager ops) : DispManager ops :=
  { m with apps := { m.apps with lheadWaitIncrease := ⟨[]⟩ } }

namespace DispManager

variable {m m' : DispManager ops} {id : Id}

theorem onlineSection_unlisted (m : DispManager ops) (id : Id) :
    m.unlisted.onlineSection id =
      (m.onlineSection id).map fun res => (res.1.unlisted, res.2) := by
  unfold onlineSection
  simp only [unlisted]
  cases m.tokenNodeCache.alloc with
  | none => rfl
  | some cache =>
    simp only
    cases m.tab.find id with
    | some ptr => rfl
    | none =>
      simp only
      cases m.tokens.online (AppNode.init m.nextNode m.defaultTokenMin m.fenceId) with
      | none => rfl
      | some res =>
        obtain ⟨tokens, node, err⟩ := res
        simp only [Option.bind_eq_bind, Option.bind_some]
        split
        · cases m.tab.insert id node.ptr with
          | none => rfl
          | some res =>
            obtain ⟨tab, err⟩ := res
            simp only [Option.bind_some]
            split
            · rfl
            · cases tokens.offline node <;> rfl
        · rfl

theorem rcvdSection_unlisted (m : DispManager ops) (id : Id) (a2d : App2Dispatch) :
    m.unlisted.rcvdSection id a2d = (m.rcvdSection id a2d).map unlisted := by
  unfold rcvdSection nodeRcvd
  simp only [unlisted]
  cases m.tab.find id with
  | none => rfl
  | some ptr =>
    simp only [Option.bind_eq_bind]
    show (m.apps.node? ptr).bind _ >>= _ = _
    cases m.apps.node? ptr with
    | none => rfl
    | some node =>
      simp only [Option.bind_some]
      generalize node.rcvd a2d 0 = res
      obtain ⟨node', isReset, newFreeSize⟩ := res
      cases isReset with
      | true => rfl
      | false =>
        show (if newFreeSize ≠ 0 then _ else _) =
          Option.map unlisted (if newFreeSize ≠ 0 then _ else _)
        split <;> rfl

/-- `node_online` goes on to `update_policy` exactly if there is a new node. -/
theorem onlineSection_done {done : Bool} (h : m.onlineSection id = some (m', done)) :
    done = true ↔ m'.apps.nodes ≠ m.apps.nodes := by
  unfold onlineSection at h
  split at h
  · obtain ⟨rfl, rfl⟩ := Prod.mk.inj (Option.some.inj h)
    simp
  · simp only at h
    split at h
    · obtain ⟨rfl, rfl⟩ := Prod.mk.inj (Option.some.inj h)
      simp
    · obtain ⟨⟨tokens, node, err⟩, -, h⟩ := Option.bind_eq_some_iff.mp h
      simp only at h
      split at h
      · obtain ⟨⟨tab, err⟩, -, h⟩ := Option.bind_eq_some_iff.mp h
        simp only at h
        split at h
        · obtain ⟨rfl, rfl⟩ := Prod.mk.inj (Option.some.inj h)
          simp
        · obtain ⟨⟨tokens, _⟩, -, h⟩ := Option.bind_eq_some_iff.mp h
          obtain ⟨rfl, rfl⟩ := Prod.mk.inj (Option.some.inj h)
          simp
      · obtain ⟨rfl, rfl⟩ := Prod.mk.inj (Option.some.inj h)
        simp

end DispManager

-- ---------------------------------------------------------------------------
-- One call
-- ---------------------------------------------------------------------------

/-- The same dispatcher, once with the list in memory. -/
structure DispAt (L : AppLayout) (d : DispLinks ops) (m : DispManager ops) : Prop where
  disp_eq : d.disp = m.unlisted
  wait    : WaitAt L d.wait m.apps.lheadWaitIncrease
  /-- the nodes that are there are those that are online -/
  online  : ∀ ptr, d.wait.there ptr = true ↔ ∃ id, m.tab.find id = some ptr
  linked  : m.Linked

namespace DispAt

variable {L : AppLayout} {d d' : DispLinks ops} {m m' : DispManager ops} {id : Id}
  {ptr : AppNodePtr} {node : AppNode}

/-- What leaves the table alone, and the nodes. -/
theorem of_same (h : DispAt L d m) (hDisp : d'.disp = m'.unlisted)
    (hWait : WaitAt L d'.wait m'.apps.lheadWaitIncrease) (hThere : d'.wait.there = d.wait.there)
    (hTab : m'.tab = m.tab) (hLinked : m'.Linked) : DispAt L d' m' where
  disp_eq := hDisp
  wait    := hWait
  online  := by
    rw [hThere, hTab]
    exact h.online
  linked  := hLinked

theorem node?_eq (h : DispAt L d m) (ptr : AppNodePtr) :
    d.disp.apps.node? ptr = m.apps.node? ptr := by
  rw [h.disp_eq]
  rfl

theorem find_eq (h : DispAt L d m) (id : Id) : d.disp.tab.find id = m.tab.find id := by
  rw [h.disp_eq]
  rfl

theorem there_of_find (h : DispAt L d m) (hFind : m.tab.find id = some ptr) :
    d.wait.there ptr = true := (h.online ptr).mpr ⟨id, hFind⟩

/-- One round of the loop. -/
theorem updateTokenQuota (h : DispAt L d m) (hThere : d.wait.there node.ptr = true) :
    ∃ d', node.updateTokenQuota (d.disp, some d.wait) DispLinks.globalTryAlloc
        (DispLinks.waitIncreaseErase L) =
      ((d'.disp, some d'.wait),
        (node.updateTokenQuota m DispManager.globalTryAlloc DispManager.waitIncreaseErase).2) ∧
      DispAt L d'
        (node.updateTokenQuota m DispManager.globalTryAlloc DispManager.waitIncreaseErase).1 := by
  obtain ⟨disp, wait⟩ := d
  obtain rfl : disp = m.unlisted := h.disp_eq
  unfold AppNode.updateTokenQuota
  by_cases hLess : node.tokenQuota < node.tokenQuotaNew
  · rw [if_pos hLess, if_pos hLess]
    obtain ⟨m₁, hm₁⟩ : ∃ m₁ : DispManager ops, m₁ = { m with
        tokens := (m.tokens.tryAlloc (node.tokenQuotaNew - node.tokenQuota)).1 } := ⟨_, rfl⟩
    have hLinked : m₁.Linked := by
      rw [hm₁]
      exact h.linked.of_sublist rfl (Nat.le_refl _) (fun _ hx => hx) (List.Sublist.refl _)
    by_cases hEnough : (m.tokens.tryAlloc (node.tokenQuotaNew - node.tokenQuota)).2 =
        node.tokenQuotaNew - node.tokenQuota
    · obtain ⟨wait', hErase, hSame, hAt⟩ := h.wait.erase hThere
      refine ⟨⟨m₁.unlisted, wait'⟩, ?_, ?_⟩
      · simp only [DispLinks.globalTryAlloc, DispManager.globalTryAlloc, DispManager.unlisted,
          hEnough, if_true, DispLinks.waitIncreaseErase, Option.bind_some, hErase, hm₁]
      · simp only [DispManager.globalTryAlloc, hEnough, if_true, ← hm₁]
        have hList : m₁.apps.lheadWaitIncrease = m.apps.lheadWaitIncrease := by rw [hm₁]
        refine h.of_same rfl ?_ hSame ?_ (hLinked.of_sublist rfl (Nat.le_refl _) (fun _ hx => hx)
          List.filter_sublist)
        · rw [DispManager.waitIncreaseErase, hList]
          exact hAt
        · rw [hm₁]
          rfl
    · refine ⟨⟨m₁.unlisted, wait⟩, ?_, ?_⟩
      · simp only [DispLinks.globalTryAlloc, DispManager.globalTryAlloc, DispManager.unlisted,
          hEnough, if_false, hm₁]
      · simp only [DispManager.globalTryAlloc, hEnough, if_false, ← hm₁]
        refine h.of_same rfl ?_ rfl ?_ hLinked <;> rw [hm₁]
        exact h.wait
  · rw [if_neg hLess, if_neg hLess]
    exact ⟨⟨m.unlisted, wait⟩, rfl, h⟩

/-- **Serving the list.** -/
theorem tryClearWaitIncrease (h : DispAt L d m) (fuel : Nat) :
    Option.Rel (DispAt L) (d.tryClearWaitIncrease L fuel) (m.tryClearWaitIncrease fuel) := by
  induction fuel generalizing d m with
  | zero => exact .none
  | succ fuel ih =>
    unfold DispLinks.tryClearWaitIncrease DispManager.tryClearWaitIncrease
    rw [h.wait.isFirstExist_eq]
    cases hFirst : m.apps.lheadWaitIncrease.isFirstExist with
    | none => exact .some h
    | some ptr =>
      simp only [h.node?_eq]
      cases hNode : m.apps.node? ptr with
      | none => exact .none
      | some node =>
        have hThere : d.wait.there node.ptr = true := by
          rw [AppNodes.ptr_of_node? hNode]
          exact h.wait.there ptr (List.mem_of_head? hFirst)
        obtain ⟨d', hRound, hAt⟩ := h.updateTokenQuota hThere
        simp only [Option.bind_eq_bind, Option.bind_some, hRound]
        generalize node.updateTokenQuota m DispManager.globalTryAlloc
          DispManager.waitIncreaseErase = res at hAt
        obtain ⟨m', isContinue⟩ := res
        cases isContinue with
        | true => exact ih hAt
        | false => exact .some hAt

/-- **A new target.** -/
theorem setQuotaNew (h : DispAt L d m) (hFind : m.tab.find id = some ptr) (quota : ULong) :
    Option.Rel (fun res res' => DispAt L res.1 { m with apps := res'.1 } ∧ res.2 = res'.2)
      (d.setQuotaNew L quota ptr) (m.apps.setQuotaNew quota ptr) := by
  obtain ⟨node, hNode⟩ := Option.isSome_iff_exists.mp (h.linked.stored id ptr hFind)
  have hPtr := AppNodes.ptr_of_node? hNode
  have hThere := h.there_of_find hFind
  have hLinked : ∀ res', m.apps.setQuotaNew quota ptr = some res' →
      ({ m with apps := res'.1 } : DispManager ops).Linked := fun res' hSet =>
    DispManager.linked_setQuotaNew h.linked hFind hSet
  obtain ⟨disp, wait⟩ := d
  obtain rfl : disp = m.unlisted := h.disp_eq
  unfold DispLinks.setQuotaNew
  unfold AppNodes.setQuotaNew at hLinked ⊢
  simp only [h.node?_eq, hNode, Option.bind_eq_bind, Option.bind_some, AppNode.updateTokenQuotaNew]
    at hLinked ⊢
  split
  · rename_i hMin
    simp only [if_pos hMin, Option.bind_some, AppNode.moveTokenQuotaNew_snd,
      AppNode.moveTokenQuotaNew_fst, Option.pure_def, hPtr] at hLinked ⊢
    by_cases hUp : node.tokenQuotaNew < node.newQuotaUnderLimit quota
    · obtain ⟨wait', hEnqueue, hSame, hAt⟩ := h.wait.enqueue hThere
      simp only [if_pos hUp, Option.bind_some, hEnqueue] at hLinked ⊢
      exact .some ⟨h.of_same rfl hAt hSame rfl (hLinked _ rfl), rfl⟩
    · simp only [if_neg hUp, Option.bind_some] at hLinked ⊢
      exact .some ⟨h.of_same rfl h.wait rfl rfl (hLinked _ rfl), rfl⟩
  · exact .none

/-- **A node comes online.** -/
theorem onlineSection (h : DispAt L d m) (id : Id) :
    Option.Rel (fun res res' => DispAt L res.1 res'.1 ∧ res.2 = res'.2)
      (d.onlineSection L id) (m.onlineSection id) := by
  unfold DispLinks.onlineSection
  rw [h.disp_eq, DispManager.onlineSection_unlisted]
  cases hOnline : m.onlineSection id with
  | none => exact .none
  | some res =>
    obtain ⟨m', done⟩ := res
    refine .some ⟨?_, rfl⟩
    have hLinked := (DispManager.linked_online h.linked hOnline).1
    have hDone := DispManager.onlineSection_done hOnline
    rcases DispManager.onlineSection_cases hOnline with ⟨hTab, hApps, -⟩ | ⟨node, hCame⟩
    · rw [if_neg fun hd => hDone.mp hd (congrArg AppNodes.nodes hApps)]
      exact h.of_same rfl (hApps ▸ h.wait) rfl hTab hLinked
    · have hNew : done = true := hDone.mpr (by rw [hCame.apps_eq]; simp)
      have hNext : d.wait.there m.nextNode = false := by
        rw [Bool.eq_false_iff]
        intro hThere
        obtain ⟨id', hFind⟩ := (h.online _).mp hThere
        exact Nat.lt_irrefl _ (h.linked.older id' _ hFind)
      rw [if_pos hNew]
      refine ⟨rfl, ?_, fun ptr => ?_, hLinked⟩
      · rw [hCame.list_eq]
        exact h.wait.appNodeInit hNext
      · show (d.wait.appNodeInit L m.nextNode).there ptr = true ↔ _
        rw [WaitMem.there_appNodeInit]
        split
        · rename_i hPtr
          refine iff_of_true rfl ⟨id, ?_⟩
          rw [(HashTable.find_insert hCame.insert).2, if_pos (ops.same_refl id),
            hCame.ptr_eq, hPtr]
        · rename_i hPtr
          rw [h.online]
          constructor
          · rintro ⟨id', hFind⟩
            refine ⟨id', ?_⟩
            rw [(HashTable.find_insert hCame.insert).2, if_neg fun hs => ?_]
            · exact hFind
            · rw [HashTable.find_congr hs.symm, (HashTable.find_insert (x := id) hCame.insert).1]
                at hFind
              cases hFind
          · rintro ⟨id', hFind⟩
            rcases hCame.find_cases h.linked hFind with ⟨-, heq⟩ | ⟨hFind, -⟩
            · exact absurd (heq.trans hCame.ptr_eq) hPtr
            · exact ⟨id', hFind⟩

/-- **A message.** -/
theorem rcvdSection (h : DispAt L d m) (id : Id) (a2d : App2Dispatch) :
    Option.Rel (fun disp m' => DispAt L { d with disp := disp } m')
      (d.disp.rcvdSection id a2d) (m.rcvdSection id a2d) := by
  rw [h.disp_eq, DispManager.rcvdSection_unlisted]
  cases hRcvd : m.rcvdSection id a2d with
  | none => exact .none
  | some m' =>
    have hLinked := DispManager.linked_rcvd h.linked hRcvd
    rcases DispManager.rcvdSection_cases hRcvd with ⟨-, rfl⟩ | ⟨ptr, node, -, -, hTab, -, hApps⟩
    · exact .some (h.of_same rfl h.wait rfl rfl hLinked)
    · refine .some (h.of_same rfl ?_ rfl hTab hLinked)
      rw [hApps]
      exact h.wait

/-- **A node goes offline.** -/
theorem leave (h : DispAt L d m) (id : Id) :
    ∃ d', d.leave L id = some d' ∧ DispAt L d' (m.leave id) := by
  have hLinked := (DispManager.linked_leave h.linked id).1
  unfold DispLinks.leave
  unfold DispManager.leave at hLinked ⊢
  rw [show d.disp.tab = m.tab by rw [h.disp_eq]; rfl]
  cases hErase : m.tab.erase id with
  | mk tab found =>
    have hFound : m.tab.find id = found := by rw [← HashTable.erase_snd, hErase]
    cases found with
    | none => exact ⟨d, rfl, h⟩
    | some ptr =>
      simp only [hErase] at hLinked
      have hTab : tab = (m.tab.erase id).1 := by rw [hErase]
      have hThere := h.there_of_find hFound
      obtain ⟨wait₁, hOff, hSame, hAt₁⟩ := h.wait.erase hThere
      have hOut : ptr ∉ (m.apps.lheadWaitIncrease.erase ptr).head := fun hMem =>
        (WaitIncreaseList.mem_erase.mp hMem).2 rfl
      obtain ⟨hFree, hAt⟩ := hAt₁.freeNode (hSame ▸ hThere) hOut
      refine ⟨⟨{ d.disp with tab := tab }, wait₁.gave ptr⟩, ?_, ?_, hAt, fun x => ?_, hLinked⟩
      · simp only [hOff, hFree, Option.bind_eq_bind, Option.bind_some, Option.pure_def]
      · rw [h.disp_eq]
        rfl
      · show _ ↔ ∃ id', tab.find id' = some x
        rw [WaitMem.there_gave, hSame]
        simp only [hTab, HashTable.find_erase]
        split
        · rename_i hx
          refine iff_of_false (by simp) ?_
          rintro ⟨id', hFind⟩
          split at hFind
          · cases hFind
          · exact absurd (h.linked.apart id id' ptr hFound (hx ▸ hFind)) ‹_›
        · rename_i hx
          rw [h.online]
          refine exists_congr fun id' => ?_
          split
          · rename_i hs
            rw [HashTable.find_congr hs.symm, hFound]
            exact iff_of_false (fun heq => hx (Option.some.inj heq).symm) (by simp)
          · rfl

-- ---------------------------------------------------------------------------
-- Steps and runs
-- ---------------------------------------------------------------------------

theorem rel_left {α β : Type} {R : α → β → Prop} {x : Option α} {y : Option β}
    (h : Option.Rel R x y) {a : α} (ha : x = some a) : ∃ b, y = some b ∧ R a b := by
  cases h with
  | none => cases ha
  | some hR => exact ⟨_, rfl, Option.some.inj ha ▸ hR⟩

theorem rel_right {α β : Type} {R : α → β → Prop} {x : Option α} {y : Option β}
    (h : Option.Rel R x y) {b : β} (hb : y = some b) : ∃ a, x = some a ∧ R a b := by
  cases h with
  | none => cases hb
  | some hR => exact ⟨_, rfl, Option.some.inj hb ▸ hR⟩

/-- What the call does with the list, it does with the links, -/
theorem linkStep (h : DispAt L d m) {call : WaitCall Id} (hStep : m.WaitStep call m') :
    ∃ d', d.LinkStep L call d' ∧ DispAt L d' m' := by
  cases call with
  | increase cost =>
    obtain rfl := hStep
    have hCall : m.WaitStep (.increase cost) _ := rfl
    refine ⟨_, rfl, h.of_same ?_ h.wait rfl rfl (DispManager.linked_step h.linked hCall)⟩
    rw [h.disp_eq]
    rfl
  | reduce cost =>
    obtain rfl := hStep
    have hCall : m.WaitStep (.reduce cost) _ := rfl
    refine ⟨_, rfl, h.of_same ?_ h.wait rfl rfl (DispManager.linked_step h.linked hCall)⟩
    rw [h.disp_eq]
    rfl
  | online id =>
    obtain ⟨done, hOnline⟩ := hStep
    obtain ⟨⟨d', done'⟩, hLinks, hAt, -⟩ := rel_right (h.onlineSection id) hOnline
    exact ⟨d', ⟨done', hLinks⟩, hAt⟩
  | setQuotaNew quota ptr =>
    obtain ⟨⟨id, hFind⟩, apps, quota', hSet, rfl⟩ := hStep
    obtain ⟨⟨d', quota₁⟩, hLinks, hAt, -⟩ := rel_right (h.setQuotaNew hFind quota) hSet
    exact ⟨d', ⟨⟨id, (h.find_eq id).trans hFind⟩, quota₁, hLinks⟩, hAt⟩
  | clearWaitIncrease =>
    obtain ⟨fuel, hClear⟩ := hStep
    obtain ⟨d', hLinks, hAt⟩ := rel_right (h.tryClearWaitIncrease fuel) hClear
    exact ⟨d', ⟨fuel, hLinks⟩, hAt⟩
  | rcvd id a2d =>
    obtain ⟨disp, hLinks, hAt⟩ := rel_right (h.rcvdSection id a2d) hStep
    exact ⟨_, ⟨disp, hLinks, rfl⟩, hAt⟩
  | leave id =>
    obtain rfl := hStep
    exact h.leave id

/-- and what it does with the links, it does with the list. -/
theorem waitStep (h : DispAt L d m) {call : WaitCall Id} (hStep : d.LinkStep L call d') :
    ∃ m', m.WaitStep call m' ∧ DispAt L d' m' := by
  cases call with
  | increase cost =>
    obtain rfl := hStep
    have hCall : m.WaitStep (.increase cost) _ := rfl
    obtain ⟨_, rfl, hAt⟩ := h.linkStep hCall
    exact ⟨_, rfl, hAt⟩
  | reduce cost =>
    obtain rfl := hStep
    have hCall : m.WaitStep (.reduce cost) _ := rfl
    obtain ⟨_, rfl, hAt⟩ := h.linkStep hCall
    exact ⟨_, rfl, hAt⟩
  | online id =>
    obtain ⟨done, hLinks⟩ := hStep
    obtain ⟨⟨m', done'⟩, hOnline, hAt, -⟩ := rel_left (h.onlineSection id) hLinks
    exact ⟨m', ⟨done', hOnline⟩, hAt⟩
  | setQuotaNew quota ptr =>
    obtain ⟨⟨id, hFind⟩, quota', hLinks⟩ := hStep
    rw [h.find_eq] at hFind
    obtain ⟨⟨apps, quota₁⟩, hSet, hAt, -⟩ := rel_left (h.setQuotaNew hFind quota) hLinks
    exact ⟨_, ⟨⟨id, hFind⟩, apps, quota₁, hSet, rfl⟩, hAt⟩
  | clearWaitIncrease =>
    obtain ⟨fuel, hLinks⟩ := hStep
    obtain ⟨m', hClear, hAt⟩ := rel_left (h.tryClearWaitIncrease fuel) hLinks
    exact ⟨m', ⟨fuel, hClear⟩, hAt⟩
  | rcvd id a2d =>
    obtain ⟨disp, hLinks, rfl⟩ := hStep
    exact rel_left (h.rcvdSection id a2d) hLinks
  | leave id =>
    obtain ⟨d₁, hLinks, hAt⟩ := h.leave id
    obtain rfl := Option.some.inj (hLinks.symm.trans hStep)
    exact ⟨_, rfl, hAt⟩

theorem init (hInit : (waitSystem ops).init m) (L : AppLayout) (links : ListMem) :
    DispAt L ⟨m, .init L links⟩ m := by
  have hLinked := (DispManager.linked_init hInit).1
  obtain ⟨tableLen, maxNodeNum, updateInterval, minRsNum, hPos, rfl⟩ := hInit
  refine ⟨rfl, WaitAt.init L links, fun ptr => ?_, hLinked⟩
  simp [WaitMem.init, DispManager.init]

end DispAt

/-- **The links refine the list.** From a new dispatcher, whatever is in memory,
every run with the list is one with the links and the other way round: no call
reads or writes a node that is not there, the links are a ring of the nodes that
wait in their order, all other nodes are on their own, and the nodes that are
there are those that are online. -/
theorem wait_links_refine {m₀ : DispManager ops} (hInit : (waitSystem ops).init m₀) (L : AppLayout)
    (links : ListMem) :
    (∀ tr m, Run (waitSystem ops) m₀ tr m →
      ∃ tr' d, Run (linkSystem L ops) ⟨m₀, .init L links⟩ tr' d ∧
        tr'.map Transition.act = tr.map Transition.act ∧ DispAt L d m) ∧
      ∀ tr' d, Run (linkSystem L ops) ⟨m₀, .init L links⟩ tr' d →
        ∃ tr m, Run (waitSystem ops) m₀ tr m ∧
          tr.map Transition.act = tr'.map Transition.act ∧ DispAt L d m := by
  have hAt := DispAt.init hInit L links
  constructor
  · intro tr m hRun
    exact hRun.lockstep (A := linkSystem L ops) (R := fun m d => DispAt L d m)
      (fun _ _ _ _ h hStep => h.linkStep hStep) hAt
  · intro tr' d hRun
    exact hRun.lockstep (A := waitSystem ops) (R := DispAt L)
      (fun _ _ _ _ h hStep => h.waitStep hStep) hAt

section OneLinked

/-- The list at 0, and each node one further than its number. -/
def shiftedLayout : AppLayout where
  head           := 0
  listOf         := Nat.succ
  nodeOf         := Nat.pred
  nodeOf_listOf  := Nat.pred_succ
  listOf_ne_head := Nat.succ_ne_zero

/-- The app that waits is in the ring. -/
theorem wait_links_one_waits : ∃ tr d,
    Run (linkSystem shiftedLayout IdOps.nat) ⟨emptyDispatcher, .init shiftedLayout ⟨id, id⟩⟩ tr d ∧
      DispAt shiftedLayout d oneWaits ∧ Ring d.wait.links 0 [1] := by
  obtain ⟨tr, d, hRun, -, hAt⟩ :=
    (wait_links_refine emptyDispatcher_initial shiftedLayout ⟨id, id⟩).1 _ _ run_oneWaits
  have hList : oneWaits.apps.lheadWaitIncrease.head.map shiftedLayout.listOf = [1] := by decide
  exact ⟨tr, d, hRun, hAt, hList ▸ hAt.wait.ring⟩

end OneLinked

end DatastorQos
