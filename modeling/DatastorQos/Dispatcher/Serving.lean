import DatastorQos.Dispatcher.WaitIncrease
import Mathlib.Logic.Relation

/-!
# datastor_qos — serving the wait-increase list

A round of the loop takes the first node off the list only where that node was
promised more than it has. A node that has its target stays first, and the loop
goes on with it.

* `serving_ends_iff` — serving ends, in every state of exactly the runs whose
  calls leave no node on the list that has its target;
* `lowered_target_is_served_for_ever` — a target that is raised and lowered
  again;
* `tokens_reach_node_iff` — the tokens that a round takes from the pool reach no
  node: all is well only where it takes none.
-/

namespace DatastorQos

open Runs Relation

variable {Id : Type} {ops : IdOps Id}

-- ---------------------------------------------------------------------------
-- Rounds of the loop
-- ---------------------------------------------------------------------------

namespace DispManager

variable {m m' m₁ m₂ : DispManager ops} {id : Id} {ptr : AppNodePtr} {node node' : AppNode}
  {fuel : Nat}

/-- A round of `try_clear_wait_increase` after which the loop goes on. -/
def Round (m m' : DispManager ops) : Prop :=
  ∃ ptr node, m.apps.lheadWaitIncrease.isFirstExist = some ptr ∧ m.apps.node? ptr = some node ∧
    node.updateTokenQuota m globalTryAlloc waitIncreaseErase = (m', true)

/-- The loop ends, and every round that does not end it takes the first node off
the list. -/
structure ServingEnds (m : DispManager ops) : Prop where
  returns : ∃ fuel, (m.tryClearWaitIncrease fuel).isSome
  removes : ∀ m₁ m₂, ReflTransGen Round m m₁ → Round m₁ m₂ →
    m₂.apps.lheadWaitIncrease.head = m₁.apps.lheadWaitIncrease.head.tail

/-- Every node on the list was promised more than it has. -/
def OnlyWaiting (m : DispManager ops) : Prop :=
  ∀ ptr ∈ m.apps.lheadWaitIncrease.head, ∀ node, m.apps.node? ptr = some node →
    node.tokenQuota < node.tokenQuotaNew

/-- What leaves the nodes alone and only takes from the list. -/
theorem OnlyWaiting.of_sublist (hWaiting : m.OnlyWaiting)
    (hNodes : ∀ x, m'.apps.node? x = m.apps.node? x)
    (hList : m'.apps.lheadWaitIncrease.head.Sublist m.apps.lheadWaitIncrease.head) :
    m'.OnlyWaiting :=
  fun ptr hMem node hNode => hWaiting ptr (hList.subset hMem) node (hNodes ptr ▸ hNode)

theorem tryClearWaitIncrease_round (h : m.Round m') :
    m.tryClearWaitIncrease (fuel + 1) = m'.tryClearWaitIncrease fuel := by
  obtain ⟨ptr, node, hFirst, hNode, hUpdate⟩ := h
  rw [tryClearWaitIncrease]
  simp only [hFirst, hNode, hUpdate, Option.bind_eq_bind, Option.bind_some]

/-- A pool that does not have what the first node lacks ends the loop. -/
theorem tryClearWaitIncrease_short (hFirst : m.apps.lheadWaitIncrease.isFirstExist = some ptr)
    (hNode : m.apps.node? ptr = some node) (hLess : node.tokenQuota < node.tokenQuotaNew)
    (hShort : m.tokens.tokenFree < node.tokenQuotaNew - node.tokenQuota) :
    ∃ m', m.tryClearWaitIncrease 1 = some m' ∧ m'.apps = m.apps := by
  rcases m.updateTokenQuota_cases node with ⟨hNot, -⟩ | ⟨-, tokens, -, ⟨hEnough, -⟩ | ⟨-, heq⟩⟩
  · exact absurd hLess hNot
  · exact absurd hShort hEnough
  · refine ⟨{ m with tokens := tokens }, ?_, rfl⟩
    rw [tryClearWaitIncrease]
    simp only [hFirst, hNode, heq, Option.bind_eq_bind, Option.bind_some]

/-- A pool that has what the first node lacks is left with less of it, and the
loop goes on without the node. -/
theorem round_of_enough (hFirst : m.apps.lheadWaitIncrease.isFirstExist = some ptr)
    (hNode : m.apps.node? ptr = some node) (hLess : node.tokenQuota < node.tokenQuotaNew)
    (hEnough : ¬ m.tokens.tokenFree < node.tokenQuotaNew - node.tokenQuota) :
    m.Round ({ m with
      tokens := (m.tokens.tryAlloc (node.tokenQuotaNew - node.tokenQuota)).1
    }.waitIncreaseErase ptr) := by
  rcases m.updateTokenQuota_cases node with ⟨hNot, -⟩ | ⟨-, tokens, rfl, ⟨-, heq⟩ | ⟨hShort, -⟩⟩
  · exact absurd hLess hNot
  · rw [AppNodes.ptr_of_node? hNode] at heq
    exact ⟨ptr, node, hFirst, hNode, heq⟩
  · exact absurd hShort hEnough

/-- A node that has its target leaves everything as it is. -/
theorem round_of_target (hFirst : m.apps.lheadWaitIncrease.isFirstExist = some ptr)
    (hNode : m.apps.node? ptr = some node) (hNot : ¬ node.tokenQuota < node.tokenQuotaNew) :
    m.Round m := by
  rcases m.updateTokenQuota_cases node with ⟨-, heq⟩ | ⟨hLess, -⟩
  · exact ⟨ptr, node, hFirst, hNode, heq⟩
  · exact absurd hLess hNot

/-- **One round** over a list of nodes that wait. -/
theorem round_removes (hLinked : m.Linked) (hWaiting : m.OnlyWaiting) (h : m.Round m') :
    m'.Linked ∧ m'.OnlyWaiting ∧
      m'.apps.lheadWaitIncrease.head = m.apps.lheadWaitIncrease.head.tail := by
  obtain ⟨ptr, node, hFirst, hNode, hUpdate⟩ := h
  have hLess := hWaiting ptr (List.mem_of_head? hFirst) node hNode
  rcases m.updateTokenQuota_cases node with ⟨hNot, -⟩ | ⟨-, tokens, -, ⟨-, heq⟩ | ⟨-, heq⟩⟩
  · exact absurd hLess hNot
  · obtain ⟨rfl, -⟩ := Prod.mk.inj (heq.symm.trans hUpdate)
    refine ⟨hLinked.of_sublist rfl (Nat.le_refl _) (fun x hx => hx) List.filter_sublist,
      hWaiting.of_sublist (fun _ => rfl) List.filter_sublist, ?_⟩
    rw [AppNodes.ptr_of_node? hNode]
    exact WaitIncreaseList.erase_first hLinked.nodup hFirst
  · cases (Prod.mk.inj (heq.symm.trans hUpdate)).2

theorem rounds_remove (hLinked : m.Linked) (hWaiting : m.OnlyWaiting)
    (h : ReflTransGen Round m m') : m'.Linked ∧ m'.OnlyWaiting := by
  induction h with
  | refl => exact ⟨hLinked, hWaiting⟩
  | tail _ hRound ih =>
    obtain ⟨hLinked', hWaiting', -⟩ := round_removes ih.1 ih.2 hRound
    exact ⟨hLinked', hWaiting'⟩

/-- The loop ends, or does another round. -/
theorem ends_or_round (hLinked : m.Linked) (hWaiting : m.OnlyWaiting) :
    (m.tryClearWaitIncrease 1).isSome ∨ m.apps.lheadWaitIncrease.head ≠ [] ∧ ∃ m', m.Round m' := by
  cases hFirst : m.apps.lheadWaitIncrease.isFirstExist with
  | none =>
    refine Or.inl ?_
    rw [tryClearWaitIncrease]
    simp only [hFirst, Option.isSome_some]
  | some ptr =>
    have hMem := List.mem_of_head? hFirst
    obtain ⟨id, hFind⟩ := hLinked.queued ptr hMem
    obtain ⟨node, hNode⟩ := Option.isSome_iff_exists.mp (hLinked.stored id ptr hFind)
    have hLess := hWaiting ptr hMem node hNode
    by_cases hShort : m.tokens.tokenFree < node.tokenQuotaNew - node.tokenQuota
    · obtain ⟨m', hClear, -⟩ := tryClearWaitIncrease_short hFirst hNode hLess hShort
      exact Or.inl (by rw [hClear]; rfl)
    · exact Or.inr ⟨List.ne_nil_of_mem hMem, _, round_of_enough hFirst hNode hLess hShort⟩

/-- **Serving ends** over a list of nodes that wait. -/
theorem OnlyWaiting.servingEnds (hWaiting : m.OnlyWaiting) (hLinked : m.Linked) :
    m.ServingEnds := by
  constructor
  · -- the list gets shorter by one node each round
    induction hLength : m.apps.lheadWaitIncrease.head.length generalizing m with
    | zero =>
      rcases ends_or_round hLinked hWaiting with hEnds | ⟨hNotEmpty, -⟩
      · exact ⟨1, hEnds⟩
      · exact absurd (List.eq_nil_of_length_eq_zero hLength) hNotEmpty
    | succ n ih =>
      rcases ends_or_round hLinked hWaiting with hEnds | ⟨-, m', hRound⟩
      · exact ⟨1, hEnds⟩
      · obtain ⟨hLinked', hWaiting', hTail⟩ := round_removes hLinked hWaiting hRound
        obtain ⟨fuel, hReturns⟩ := ih hWaiting' hLinked' (by rw [hTail, List.length_tail]; omega)
        exact ⟨fuel + 1, by rwa [tryClearWaitIncrease_round hRound]⟩
  · intro m₁ m₂ hRounds hRound
    obtain ⟨hLinked₁, hWaiting₁⟩ := rounds_remove hLinked hWaiting hRounds
    exact (round_removes hLinked₁ hWaiting₁ hRound).2.2

/-- Where serving ends, each node that the loop comes to waits. -/
theorem ServingEnds.first_waits (hEnds : m.ServingEnds) (hRounds : ReflTransGen Round m m₁)
    (hFirst : m₁.apps.lheadWaitIncrease.isFirstExist = some ptr)
    (hNode : m₁.apps.node? ptr = some node) : node.tokenQuota < node.tokenQuotaNew := by
  by_contra hNot
  have hTail := hEnds.removes m₁ m₁ hRounds (round_of_target hFirst hNode hNot)
  have hLength := congrArg List.length hTail
  rw [List.length_tail] at hLength
  have := List.length_pos_of_mem (List.mem_of_head? hFirst)
  omega

/-- A loop that is where it was does not end. -/
theorem tryClearWaitIncrease_stuck (h : m.Round m) (fuel : Nat) :
    m.tryClearWaitIncrease fuel = none := by
  induction fuel with
  | zero => rfl
  | succ fuel ih => rw [tryClearWaitIncrease_round h, ih]

-- ---------------------------------------------------------------------------
-- Steps
-- ---------------------------------------------------------------------------

end DispManager

/-- The call leaves no node on the list that has its target. -/
def WaitCall.KeepsWaiting (m : DispManager ops) : WaitCall Id → Prop
  -- the new target of a node that is on the list, or is put there, is above its quota
  | .setQuotaNew quota ptr => ∀ node, m.apps.node? ptr = some node →
      ptr ∈ m.apps.lheadWaitIncrease.head ∨ node.tokenQuotaNew < node.newQuotaUnderLimit quota →
      node.tokenQuota < node.newQuotaUnderLimit quota
  -- a node on the list does not confirm all that it was promised
  | .rcvd id a2d => ∀ ptr node, m.tab.find id = some ptr → m.apps.node? ptr = some node →
      ptr ∈ m.apps.lheadWaitIncrease.head → a2d.version = node.version →
      a2d.tokenInUse < node.tokenQuotaNew
  | _ => True

namespace DispManager

variable {m m' : DispManager ops} {id : Id} {ptr : AppNodePtr} {node node' : AppNode}

/-- What changes the quotas and the list only at one node. -/
theorem OnlyWaiting.iff_at (hWaiting : m.OnlyWaiting) (hNode' : m'.apps.node? ptr = some node')
    (hOther : ∀ x ≠ ptr, m'.apps.node? x = m.apps.node? x ∧
      (x ∈ m'.apps.lheadWaitIncrease.head ↔ x ∈ m.apps.lheadWaitIncrease.head)) :
    m'.OnlyWaiting ↔
      (ptr ∈ m'.apps.lheadWaitIncrease.head → node'.tokenQuota < node'.tokenQuotaNew) := by
  constructor
  · exact fun h hMem => h ptr hMem node' hNode'
  · intro hAt x hMem node hNode
    by_cases hEq : x = ptr
    · subst hEq
      obtain rfl := Option.some.inj (hNode'.symm.trans hNode)
      exact hAt hMem
    · obtain ⟨hSame, hMem'⟩ := hOther x hEq
      exact hWaiting x (hMem'.mp hMem) node (hSame ▸ hNode)

theorem setQuotaNew_waiting_iff {quota quota' : ULong} {apps : AppNodes}
    (hWaiting : m.OnlyWaiting) (h : m.apps.setQuotaNew quota ptr = some (apps, quota')) :
    { m with apps := apps }.OnlyWaiting ↔
      (WaitCall.setQuotaNew quota ptr : WaitCall Id).KeepsWaiting m := by
  obtain ⟨node, version, hNode, -, hQuota, -, hLook⟩ := AppNodes.setQuotaNew_eq h
  have hList := AppNodes.setQuotaNew_list h hNode
  have hKeeps : (WaitCall.setQuotaNew quota ptr : WaitCall Id).KeepsWaiting m ↔
      (ptr ∈ m.apps.lheadWaitIncrease.head ∨ node.tokenQuotaNew < quota' →
        node.tokenQuota < quota') := by
    rw [hQuota]
    constructor
    · exact fun hKeeps => hKeeps node hNode
    · intro hKeeps node₁ hNode₁
      obtain rfl := Option.some.inj (hNode.symm.trans hNode₁)
      exact hKeeps
  have hNode' : apps.node? ptr =
      some { node with tokenQuotaNew := quota', version := version } := by
    rw [hLook, if_pos rfl]
  have hOther : ∀ x ≠ ptr, apps.node? x = m.apps.node? x ∧
      (x ∈ apps.lheadWaitIncrease.head ↔ x ∈ m.apps.lheadWaitIncrease.head) := by
    intro x hx
    refine ⟨by rw [hLook, if_neg hx], ?_⟩
    rw [hList]
    split
    · simp [hx]
    · rfl
  have hAt : { m with apps := apps }.OnlyWaiting ↔ _ := hWaiting.iff_at hNode' hOther
  rw [hKeeps, hAt]
  simp only [hList]
  by_cases hUp : node.tokenQuotaNew < quota'
  · rw [if_pos hUp, WaitIncreaseList.mem_enqueue]
    simp only [hUp, or_true]
  · rw [if_neg hUp]
    simp only [hUp, or_false]

theorem rcvd_waiting_iff {a2d : App2Dispatch} (hWaiting : m.OnlyWaiting)
    (h : m.rcvdSection id a2d = some m') :
    m'.OnlyWaiting ↔ (WaitCall.rcvd id a2d).KeepsWaiting m := by
  rcases rcvdSection_cases h with ⟨hNone, rfl⟩ | ⟨ptr, node, hFind, hNode, -, -, hApps⟩
  · refine iff_of_true hWaiting fun ptr node hFind => ?_
    rw [hNone] at hFind
    cases hFind
  · have hKeeps : (WaitCall.rcvd id a2d).KeepsWaiting m ↔
        (ptr ∈ m.apps.lheadWaitIncrease.head → a2d.version = node.version →
          a2d.tokenInUse < node.tokenQuotaNew) := by
      constructor
      · exact fun hKeeps => hKeeps ptr node hFind hNode
      · intro hKeeps ptr₁ node₁ hFind₁ hNode₁
        obtain rfl := Option.some.inj (hFind.symm.trans hFind₁)
        obtain rfl := Option.some.inj (hNode.symm.trans hNode₁)
        exact hKeeps
    have hNode' : m'.apps.node? ptr = some (node.rcvd a2d 0).1 := by
      rw [hApps, AppNodes.node?_setNode_rcvd hNode, if_pos rfl]
    have hSameList : m'.apps.lheadWaitIncrease = m.apps.lheadWaitIncrease := by
      rw [hApps]
      rfl
    rw [hKeeps, hWaiting.iff_at hNode' fun x hx =>
      ⟨by rw [hApps, AppNodes.node?_setNode_rcvd hNode, if_neg hx], by rw [hSameList]⟩, hSameList]
    refine forall_congr' fun hMem => ?_
    have hLess := hWaiting ptr hMem node hNode
    have hMin := ULong.toNat_cmin a2d.tokenInUse node.tokenQuotaNew
    rcases node.rcvd_cases a2d 0 with ⟨⟨press, heq⟩, hNotRaised⟩ | ⟨hVersion, hRaised, heq⟩
    · rw [heq]
      refine iff_of_true hLess fun hVersion => ?_
      have := hNotRaised hVersion
      simp only [BitVec.lt_def, BitVec.le_def] at *
      omega
    · -- the node has what it confirms, up to its target
      rw [heq]
      simp only [hVersion, forall_const, BitVec.lt_def] at *
      omega

/-- **One call** over a list of nodes that wait. -/
theorem waiting_step_iff {call : WaitCall Id} (hLinked : m.Linked) (hWaiting : m.OnlyWaiting)
    (h : m.WaitStep call m') : m'.OnlyWaiting ↔ call.KeepsWaiting m := by
  cases call with
  | increase cost =>
    obtain rfl := h
    exact iff_of_true hWaiting trivial
  | reduce cost =>
    obtain rfl := h
    exact iff_of_true hWaiting trivial
  | online id =>
    obtain ⟨done, h⟩ := h
    refine iff_of_true ?_ trivial
    rcases onlineSection_cases h with ⟨-, hApps, -⟩ | ⟨node, ho⟩
    · exact hWaiting.of_sublist (fun _ => by rw [hApps]) (hApps ▸ List.Sublist.refl _)
    · -- the new node has an address that is on no list
      intro ptr hMem node₁ hNode₁
      rw [ho.list_eq] at hMem
      obtain ⟨id₁, hFind⟩ := hLinked.queued ptr hMem
      have hOlder := hLinked.older id₁ ptr hFind
      rw [ho.node?_eq, if_neg (by rw [ho.ptr_eq]; exact Nat.ne_of_lt hOlder)] at hNode₁
      exact hWaiting ptr hMem node₁ hNode₁
  | setQuotaNew quota ptr =>
    obtain ⟨-, apps, quota', h, rfl⟩ := h
    exact setQuotaNew_waiting_iff hWaiting h
  | clearWaitIncrease =>
    obtain ⟨fuel, h⟩ := h
    obtain ⟨-, -, hNodes, hList⟩ := tryClearWaitIncrease_frame h
    exact iff_of_true (hWaiting.of_sublist hNodes hList) trivial
  | rcvd id a2d => exact rcvd_waiting_iff hWaiting h
  | leave id =>
    obtain rfl := h
    refine iff_of_true ?_ trivial
    unfold leave
    split
    · exact hWaiting.of_sublist (fun _ => rfl) List.filter_sublist
    · exact hWaiting

-- ---------------------------------------------------------------------------
-- Runs
-- ---------------------------------------------------------------------------

end DispManager

/-- More tokens, or a serving. -/
def WaitCall.Supplies : WaitCall Id → Prop
  | .increase _ | .clearWaitIncrease => True
  | _ => False

namespace DispManager

variable {m m' : DispManager ops} {ptr : AppNodePtr} {node : AppNode}

/-- Serving ends, and however many tokens come in and are handed out from here
on, it still does. -/
def ServingStaysEnding (m : DispManager ops) : Prop :=
  ∀ tr m', Run ((waitSystem ops).restrict fun _ call => call.Supplies) m tr m' → m'.ServingEnds

theorem ServingStaysEnding.step (h : m.ServingStaysEnding) {call : WaitCall Id}
    (hStep : m.WaitStep call m') (hSupplies : call.Supplies) : m'.ServingStaysEnding := by
  intro tr m₁ hRun
  have hFirst : ((waitSystem ops).restrict fun _ call => call.Supplies).step m call m' :=
    ⟨hSupplies, hStep⟩
  exact h _ m₁ ((Run.single hFirst).append hRun)

theorem ServingStaysEnding.servingEnds (h : m.ServingStaysEnding) : m.ServingEnds :=
  h [] m Run.nil

/-- The first of several nodes is served by an increase that brings what it
lacks, and the loop stops at the next. -/
theorem ServingStaysEnding.serve_first {x y : AppNodePtr} {rest : List AppNodePtr}
    (h : m.ServingStaysEnding) (hLinked : m.Linked)
    (hHead : m.apps.lheadWaitIncrease.head = x :: y :: rest) :
    ∃ m' : DispManager ops, m'.ServingStaysEnding ∧ m'.Linked ∧ (∀ z, m'.apps.node? z = m.apps.node? z) ∧
      m'.apps.lheadWaitIncrease.head = y :: rest := by
  have hStored : ∀ z ∈ m.apps.lheadWaitIncrease.head, ∃ node, m.apps.node? z = some node := by
    intro z hz
    obtain ⟨id, hFind⟩ := hLinked.queued z hz
    exact Option.isSome_iff_exists.mp (hLinked.stored id z hFind)
  obtain ⟨nx, hx⟩ := hStored x (by rw [hHead]; exact List.mem_cons_self)
  obtain ⟨ny, hy⟩ := hStored y
    (by rw [hHead]; exact List.mem_cons_of_mem _ List.mem_cons_self)
  have hFirst : m.apps.lheadWaitIncrease.isFirstExist = some x := by
    rw [WaitIncreaseList.isFirstExist, hHead, List.head?_cons]
  have hLess := h.servingEnds.first_waits .refl hFirst hx
  -- now the pool has exactly what `x` lacks
  let m₁ := m.increaseSection (nx.tokenQuotaNew - nx.tokenQuota - m.tokens.tokenFree)
  have hStep₁ : m.WaitStep (.increase _) m₁ := rfl
  have h₁ := h.step hStep₁ trivial
  have hFree : m₁.tokens.tokenFree = nx.tokenQuotaNew - nx.tokenQuota := by
    simp only [m₁, increaseSection, TokenGlobal.increase, add_sub_cancel]
  have hRound := round_of_enough (m := m₁) hFirst hx hLess (by rw [hFree]; exact BitVec.lt_irrefl _)
  generalize hm₂ : DispManager.waitIncreaseErase _ x = m₂ at hRound
  have hEmpty : m₂.tokens.tokenFree = 0 := by
    rw [← hm₂]
    simp [waitIncreaseErase, TokenGlobal.tryAlloc, hFree, ULong.cmin]
  have hTail : m₂.apps.lheadWaitIncrease.head = y :: rest := by
    rw [← hm₂, show y :: rest = m.apps.lheadWaitIncrease.head.tail by rw [hHead, List.tail_cons]]
    exact WaitIncreaseList.erase_first hLinked.nodup hFirst
  have hFirst₂ : m₂.apps.lheadWaitIncrease.isFirstExist = some y := by
    rw [WaitIncreaseList.isFirstExist, hTail, List.head?_cons]
  have hy₂ : m₂.apps.node? y = some ny := by
    rw [← hm₂]
    exact hy
  have hLess₂ := h₁.servingEnds.first_waits (.single hRound) hFirst₂ hy₂
  obtain ⟨m₃, hClear, hApps⟩ := tryClearWaitIncrease_short hFirst₂ hy₂ hLess₂ (by
    rw [hEmpty]
    simp only [BitVec.lt_def, BitVec.toNat_sub_of_le (BitVec.le_of_lt hLess₂)] at hLess₂ ⊢
    simp only [BitVec.ofNat_eq_ofNat, BitVec.toNat_ofNat, Nat.zero_mod]
    omega)
  have hClear₁ : m₁.tryClearWaitIncrease 2 = some m₃ := by
    rw [tryClearWaitIncrease_round hRound, hClear]
  have hStep₂ : m₁.WaitStep .clearWaitIncrease m₃ := ⟨2, hClear₁⟩
  refine ⟨m₃, h₁.step hStep₂ trivial, linked_step (linked_step hLinked hStep₁) hStep₂, ?_, ?_⟩
  · exact (tryClearWaitIncrease_frame hClear₁).2.2.1
  · rw [hApps, hTail]

/-- Whatever node is on the list can be brought to its front. -/
theorem ServingStaysEnding.onlyWaiting (h : m.ServingStaysEnding) (hLinked : m.Linked) :
    m.OnlyWaiting := by
  intro ptr hMem node hNode
  obtain ⟨before, rest, hHead⟩ := List.append_of_mem hMem
  induction before generalizing m with
  | nil =>
    refine h.servingEnds.first_waits .refl ?_ hNode
    rw [WaitIncreaseList.isFirstExist, hHead, List.nil_append, List.head?_cons]
  | cons x before ih =>
    obtain ⟨y, rest', hRest⟩ := List.exists_cons_of_ne_nil
      (List.append_ne_nil_of_right_ne_nil before (List.cons_ne_nil ptr rest))
    rw [List.cons_append, hRest] at hHead
    obtain ⟨m', h', hLinked', hNodes, hHead'⟩ := h.serve_first hLinked hHead
    rw [← hRest] at hHead'
    exact ih h' hLinked' (by rw [hHead']; simp) ((hNodes ptr).trans hNode) hHead'

/-- Serving ends for good exactly over a list of nodes that wait. -/
theorem servingStaysEnding_iff (hLinked : m.Linked) : m.ServingStaysEnding ↔ m.OnlyWaiting := by
  constructor
  · exact fun h => h.onlyWaiting hLinked
  · intro hWaiting tr m' hRun
    have hKept : m'.Linked ∧ m'.OnlyWaiting := by
      refine hRun.invariant (I := fun m => m.Linked ∧ m.OnlyWaiting) ?_ ⟨hLinked, hWaiting⟩
      rintro m₁ call m₂ ⟨hLinked₁, hWaiting₁⟩ ⟨hSupplies, hStep⟩
      refine ⟨linked_step hLinked₁ hStep, (waiting_step_iff hLinked₁ hWaiting₁ hStep).mpr ?_⟩
      cases call <;> trivial
    exact hKept.2.servingEnds hKept.1

end DispManager

theorem DispManager.onlyWaiting_init {m : DispManager ops} (h : (waitSystem ops).init m) :
    m.OnlyWaiting := by
  obtain ⟨tableLen, maxNodeNum, updateInterval, minRsNum, hPos, rfl⟩ := h
  intro ptr hMem
  simp [init] at hMem

/-- **Serving the wait-increase list** ends for good in every state of exactly the
runs whose calls leave no node on the list that has its target. -/
theorem serving_ends_iff {m₀ m : DispManager ops} {tr : List (WaitTransition ops)}
    (hInit : (waitSystem ops).init m₀) (hRun : Run (waitSystem ops) m₀ tr m) :
    ((∀ x ∈ tr, x.post.ServingStaysEnding) ↔ ∀ x ∈ tr, x.act.KeepsWaiting x.pre) ∧
      ((∀ x ∈ tr, x.act.KeepsWaiting x.pre) → m.ServingEnds) := by
  have hRule := hRun.forall_iff (I := fun m => m.Linked ∧ m.OnlyWaiting)
    (P := fun x => x.post.ServingStaysEnding) (Q := fun x => x.act.KeepsWaiting x.pre) ?_
    ⟨(DispManager.linked_init hInit).1, DispManager.onlyWaiting_init hInit⟩
  · refine ⟨hRule.1, fun hKeeps => ?_⟩
    obtain ⟨hLinked, hWaiting⟩ := hRule.2 (hRule.1.mpr hKeeps)
    exact hWaiting.servingEnds hLinked
  · rintro m₁ call m₂ ⟨hLinked₁, hWaiting₁⟩ hStep
    have hLinked₂ := DispManager.linked_step hLinked₁ hStep
    rw [DispManager.servingStaysEnding_iff hLinked₂]
    exact ⟨DispManager.waiting_step_iff hLinked₁ hWaiting₁ hStep,
      fun hWaiting₂ => ⟨hLinked₂, hWaiting₂⟩⟩

section LoweredTarget

/-- The app of node 1 has 10 tokens, was promised 20, and is now promised 10. -/
def oneLowered : DispManager IdOps.nat :=
  { oneWaits with apps := ((oneWaits.apps.setQuotaNew 10 0).get (by decide)).1 }

theorem serving_ends_one_waits : oneWaits.ServingEnds := by
  suffices hKeeps : ∀ x ∈ oneWaitsRun, x.act.KeepsWaiting x.pre from
    (serving_ends_iff emptyDispatcher_initial run_oneWaits).2 hKeeps
  simp only [oneWaitsRun, List.forall_mem_cons, WaitCall.KeepsWaiting]
  refine ⟨trivial, trivial, fun node hNode _ => ?_, by simp⟩
  have hAtMinimum : oneHasMinimum.apps.node? 0 =
      some { AppNode.init 0 10 0 with tokenQuota := 10, tokenQuotaNew := 10 } := by decide
  obtain rfl := Option.some.inj (hAtMinimum.symm.trans hNode)
  decide

/-- Node 1 is first on the list and has its target: no serving ends. -/
theorem lowered_target_is_served_for_ever :
    ¬ ∀ (m₀ m : DispManager IdOps.nat) (tr : List (WaitTransition IdOps.nat)),
      (waitSystem IdOps.nat).init m₀ → Run (waitSystem IdOps.nat) m₀ tr m → m.ServingEnds := by
  intro hAlways
  have hLower : (waitSystem IdOps.nat).step oneWaits (.setQuotaNew 10 0) oneLowered :=
    ⟨⟨1, by decide⟩, oneLowered.apps, 10, by decide, rfl⟩
  obtain ⟨fuel, hReturns⟩ :=
    (hAlways _ _ _ emptyDispatcher_initial (run_oneWaits.snoc hLower)).returns
  have hLowered : oneLowered.apps.node? 0 = some { AppNode.init 0 10 0 with
      tokenQuota    := 10
      tokenQuotaNew := 10
      version       := 2 } := by decide
  have hStuck := DispManager.round_of_target (m := oneLowered) (by decide) hLowered (by decide)
  rw [DispManager.tryClearWaitIncrease_stuck hStuck] at hReturns
  cases hReturns

end LoweredTarget

-- ---------------------------------------------------------------------------
-- Where the tokens go
-- ---------------------------------------------------------------------------

/-- What `update_token_quota` takes from the pool is what the node at its address
has more, and a node that goes off the list has its target. -/
structure TokensReach (m : DispManager ops) (node : AppNode) (m' : DispManager ops) : Prop where
  moved  : ∀ node', m'.apps.node? node.ptr = some node' →
    m'.tokens.tokenFree.toNat + node'.tokenQuota.toNat =
      m.tokens.tokenFree.toNat + node.tokenQuota.toNat
  served : node.ptr ∈ m.apps.lheadWaitIncrease.head →
    node.ptr ∉ m'.apps.lheadWaitIncrease.head →
    ∀ node', m'.apps.node? node.ptr = some node' → node'.tokenQuota = node'.tokenQuotaNew

/-- The node has its target, or the pool is empty. -/
def TakesNothing (tokens : TokenGlobal) (node : AppNode) : Prop :=
  node.tokenQuotaNew ≤ node.tokenQuota ∨ tokens.tokenFree = 0

/-- **Tokens taken for a waiting node** reach it exactly if none are taken. -/
theorem tokens_reach_node_iff {m : DispManager ops} {node : AppNode}
    (hNode : m.apps.node? node.ptr = some node) :
    TokensReach m node
        (node.updateTokenQuota m DispManager.globalTryAlloc DispManager.waitIncreaseErase).1 ↔
      TakesNothing m.tokens node := by
  have hSame : ∀ m' : DispManager ops, m'.apps.nodes = m.apps.nodes →
      m'.apps.node? node.ptr = some node := fun m' h => by rw [AppNodes.node?, h]; exact hNode
  rcases m.updateTokenQuota_cases node with ⟨hNot, heq⟩ | ⟨hLess, tokens, rfl, hServed⟩
  · refine iff_of_true ?_ (Or.inl (BitVec.not_lt.mp hNot))
    rw [heq]
    refine ⟨fun node' hNode' => ?_, fun hOn hOff => absurd hOn hOff⟩
    obtain rfl := Option.some.inj (hNode.symm.trans hNode')
    rfl
  · have hNeed : 0 < (node.tokenQuotaNew - node.tokenQuota).toNat := by
      rw [BitVec.toNat_sub_of_le (BitVec.le_of_lt hLess)]
      exact Nat.sub_pos_of_lt hLess
    have hMin := ULong.toNat_cmin m.tokens.tokenFree (node.tokenQuotaNew - node.tokenQuota)
    have hTaken : (m.tokens.tryAlloc (node.tokenQuotaNew - node.tokenQuota)).1.tokenFree.toNat =
        m.tokens.tokenFree.toNat -
          min m.tokens.tokenFree.toNat (node.tokenQuotaNew - node.tokenQuota).toNat := by
      rw [TokenGlobal.tryAlloc, ← hMin]
      exact BitVec.toNat_sub_of_le (ULong.cmin_le_left _ _)
    have hTakes : TakesNothing m.tokens node ↔ m.tokens.tokenFree.toNat = 0 := by
      rw [TakesNothing, or_iff_right (BitVec.not_le.mpr hLess), ← BitVec.toNat_inj]
      rfl
    rw [hTakes]
    constructor
    · intro hReach
      have hMoved := hReach.moved node
      rcases hServed with ⟨-, heq⟩ | ⟨-, heq⟩ <;> rw [heq] at hMoved <;>
        have hMoved := hMoved hNode <;>
        simp only [DispManager.waitIncreaseErase, hTaken] at hMoved <;> omega
    · intro hEmpty
      rcases hServed with ⟨hEnough, -⟩ | ⟨-, heq⟩
      · rw [BitVec.lt_def] at hEnough
        omega
      · rw [heq]
        refine ⟨fun node' hNode' => ?_, fun hOn hOff => absurd hOn hOff⟩
        obtain rfl := Option.some.inj (hNode.symm.trans hNode')
        simp only [hTaken]
        omega

section TwentyPromised

/-- Node 1 waits, and there are no tokens. -/
def oneWaitsInVain : DispManager IdOps.nat := { oneWaits with tokens := .init 1 10 }

theorem tokens_reach_node_empty_pool :
    TokensReach oneWaitsInVain tenOfTwenty (tenOfTwenty.updateTokenQuota oneWaitsInVain
      DispManager.globalTryAlloc DispManager.waitIncreaseErase).1 :=
  (tokens_reach_node_iff (by decide)).mpr (Or.inr rfl)

/-- Of the 90 tokens in the pool 10 are taken, and node 1 still has 10. -/
theorem tokens_taken_are_lost :
    ¬ ∀ (m : DispManager IdOps.nat) (node : AppNode), m.apps.node? node.ptr = some node →
      TokensReach m node (node.updateTokenQuota m DispManager.globalTryAlloc
        DispManager.waitIncreaseErase).1 := by
  intro hAlways
  have hMoved := (hAlways oneWaits tenOfTwenty (by decide)).moved tenOfTwenty (by decide)
  revert hMoved
  decide

end TwentyPromised

end DatastorQos
