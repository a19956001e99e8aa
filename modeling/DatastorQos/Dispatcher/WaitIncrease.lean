import DatastorQos.Dispatcher.DispRuns

/-!
# datastor_qos — who is on the wait-increase list

The list should hold the online nodes that were promised more than they have.
Four places change a quota, a target or the list, and each of them looks at
other values.

* `wait_step_iff` — one call keeps the list right exactly if it meets
  `WaitCall.Keeps`;
* `wait_list_iff` — so it is over whole runs;
* `served_node_leaves_list` — `update_token_quota` takes a node off the list
  when the pool has its tokens, and does not give them to it.
-/

namespace DatastorQos

open Runs

variable {Id : Type} {ops : IdOps Id}

-- ---------------------------------------------------------------------------
-- Runs of the list
-- ---------------------------------------------------------------------------

/-- What changes a quota, a target or the list, with what changes the pool and
the table. -/
inductive WaitCall (Id : Type) where
  | increase (cost : ULong)
  | reduce (cost : ULong)
  | online (id : Id)
  | setQuotaNew (quota : ULong) (ptr : AppNodePtr)
  | clearWaitIncrease
  | rcvd (id : Id) (a2d : App2Dispatch)
  | leave (id : Id)

namespace DispManager

/-- A node goes offline: it leaves the table, and the list by
`check_erase_from_alloc_item`. This is `node_offline` with the node that it
means, where `nodeOffline` has what it takes. -/
def leave (m : DispManager ops) (id : Id) : DispManager ops :=
  match m.tab.erase id with
  | (tab, some ptr) => { m with tab := tab }.waitIncreaseErase ptr
  | (_, none) => m

/-- What a call leaves behind, if it returns. Targets are set for online
nodes. -/
def WaitStep (m : DispManager ops) : WaitCall Id → DispManager ops → Prop
  | .increase cost, m' => m' = m.increaseSection cost
  | .reduce cost, m' => m' = (m.reduceSection cost).1
  | .online id, m' => ∃ done, m.onlineSection id = some (m', done)
  | .setQuotaNew quota ptr, m' => (∃ id, m.tab.find id = some ptr) ∧
      ∃ apps quota', m.apps.setQuotaNew quota ptr = some (apps, quota') ∧ m' = { m with apps := apps }
  | .clearWaitIncrease, m' => ∃ fuel, m.tryClearWaitIncrease fuel = some m'
  | .rcvd id a2d, m' => m.rcvdSection id a2d = some m'
  | .leave id, m' => m' = m.leave id

end DispManager

def waitSystem (ops : IdOps Id) : System (DispManager ops) (WaitCall Id) where
  init := (dispSystem ops).init
  step m call m' := m.WaitStep call m'

abbrev WaitTransition (ops : IdOps Id) := Transition (DispManager ops) (WaitCall Id)

-- ---------------------------------------------------------------------------
-- The law, and what each call may do
-- ---------------------------------------------------------------------------

/-- The node is on the list exactly if it was promised more than it has, and
not twice. -/
def AppNodes.ListedRight (s : AppNodes) (ptr : AppNodePtr) : Prop :=
  ∃ node, s.node? ptr = some node ∧
    (ptr ∈ s.lheadWaitIncrease.head ↔ node.tokenQuota < node.tokenQuotaNew) ∧
    s.lheadWaitIncrease.head.count ptr ≤ 1

/-- Every online node is listed right. -/
def DispManager.ListRight (m : DispManager ops) : Prop :=
  ∀ id ptr, m.tab.find id = some ptr → m.apps.ListedRight ptr

/-- The call changes the list where it changes who has to wait. -/
def WaitCall.Keeps (m : DispManager ops) : WaitCall Id → Prop
  -- a new target is above the quota, or it and the old one are not
  | .setQuotaNew quota ptr => ∀ node, m.apps.node? ptr = some node →
      node.newQuotaUnderLimit quota = node.tokenQuotaNew ∨
      node.tokenQuota < node.newQuotaUnderLimit quota ∨
      node.newQuotaUnderLimit quota < node.tokenQuotaNew ∧ node.tokenQuotaNew ≤ node.tokenQuota
  -- the pool does not have what the first node lacks
  | .clearWaitIncrease => ∀ ptr node, m.apps.lheadWaitIncrease.isFirstExist = some ptr →
      m.apps.node? ptr = some node →
      m.tokens.tokenFree < node.tokenQuotaNew - node.tokenQuota
  -- a confirmation does not bring all that is missing
  | .rcvd id a2d => ∀ ptr node, m.tab.find id = some ptr → m.apps.node? ptr = some node →
      a2d.version = node.version → node.tokenQuota < node.tokenQuotaNew →
      a2d.tokenInUse < node.tokenQuotaNew
  | _ => True

/-- Addresses are handed out once, and only online nodes wait. -/
structure DispManager.Linked (m : DispManager ops) : Prop where
  older  : ∀ id ptr, m.tab.find id = some ptr → ptr < m.nextNode
  stored : ∀ id ptr, m.tab.find id = some ptr → (m.apps.node? ptr).isSome
  apart  : ∀ id id' ptr, m.tab.find id = some ptr → m.tab.find id' = some ptr → ops.Same id id'
  queued : ∀ ptr ∈ m.apps.lheadWaitIncrease.head, ∃ id, m.tab.find id = some ptr
  nodup  : m.apps.lheadWaitIncrease.head.Nodup

namespace DispManager

variable {m m' : DispManager ops} {id : Id} {ptr : AppNodePtr} {node node' : AppNode}

/-- With no address twice on the list, being listed right is a matter of being
on it. -/
theorem Linked.listedRight_iff (hLinked : m.Linked) (hNode : m.apps.node? ptr = some node) :
    m.apps.ListedRight ptr ↔
      (ptr ∈ m.apps.lheadWaitIncrease.head ↔ node.tokenQuota < node.tokenQuotaNew) := by
  constructor
  · rintro ⟨node', hNode', hListed, -⟩
    obtain rfl := Option.some.inj (hNode.symm.trans hNode')
    exact hListed
  · exact fun hListed => ⟨node, hNode, hListed, List.nodup_iff_count_le_one.mp hLinked.nodup ptr⟩

/-- What leaves the table alone, and changes the quotas and the list only at one
node. -/
theorem ListRight.iff_at (hRight : m.ListRight) (hLinked' : m'.Linked) (hTab : m'.tab = m.tab)
    (hFind : m.tab.find id = some ptr) (hNode' : m'.apps.node? ptr = some node')
    (hOther : ∀ x ≠ ptr, m'.apps.node? x = m.apps.node? x ∧
      (x ∈ m'.apps.lheadWaitIncrease.head ↔ x ∈ m.apps.lheadWaitIncrease.head)) :
    m'.ListRight ↔
      (ptr ∈ m'.apps.lheadWaitIncrease.head ↔ node'.tokenQuota < node'.tokenQuotaNew) := by
  constructor
  · intro h
    exact (hLinked'.listedRight_iff hNode').mp (h id ptr (hTab ▸ hFind))
  · intro hAt id' x hx
    by_cases hEq : x = ptr
    · subst hEq
      exact (hLinked'.listedRight_iff hNode').mpr hAt
    · obtain ⟨node₀, hNode₀, hListed, -⟩ := hRight id' x (hTab ▸ hx)
      obtain ⟨hSame, hMem⟩ := hOther x hEq
      rw [hLinked'.listedRight_iff (hSame.trans hNode₀), hMem]
      exact hListed

/-- What leaves the table alone keeps the links, if it only takes nodes off the
list. -/
theorem Linked.of_sublist (hLinked : m.Linked) (hTab : m'.tab = m.tab)
    (hNext : m.nextNode ≤ m'.nextNode)
    (hNodes : ∀ x, (m.apps.node? x).isSome → (m'.apps.node? x).isSome)
    (hList : m'.apps.lheadWaitIncrease.head.Sublist m.apps.lheadWaitIncrease.head) :
    m'.Linked := by
  constructor
  · rw [hTab]
    exact fun id ptr h => Nat.lt_of_lt_of_le (hLinked.older id ptr h) hNext
  · rw [hTab]
    exact fun id ptr h => hNodes ptr (hLinked.stored id ptr h)
  · rw [hTab]
    exact hLinked.apart
  · rw [hTab]
    exact fun ptr h => hLinked.queued ptr (hList.subset h)
  · exact hLinked.nodup.sublist hList

-- ---------------------------------------------------------------------------
-- New targets
-- ---------------------------------------------------------------------------

theorem linked_setQuotaNew {quota quota' : ULong} {apps : AppNodes} (hLinked : m.Linked)
    (hFind : m.tab.find id = some ptr)
    (h : m.apps.setQuotaNew quota ptr = some (apps, quota')) : { m with apps := apps }.Linked := by
  obtain ⟨node, version, hNode, -, -, -, hLook⟩ := AppNodes.setQuotaNew_eq h
  have hList := AppNodes.setQuotaNew_list h hNode
  refine ⟨hLinked.older, fun id' x hx => ?_, hLinked.apart, fun x hx => ?_, ?_⟩
  · simp only [hLook]
    split
    · rfl
    · exact hLinked.stored id' x hx
  · simp only [hList] at hx
    split at hx
    · rcases WaitIncreaseList.mem_enqueue.mp hx with hx | rfl
      · exact hLinked.queued x hx
      · exact ⟨id, hFind⟩
    · exact hLinked.queued x hx
  · simp only [hList]
    split
    · exact WaitIncreaseList.nodup_enqueue hLinked.nodup ptr
    · exact hLinked.nodup

theorem setQuotaNew_iff {quota quota' : ULong} {apps : AppNodes} (hLinked : m.Linked)
    (hRight : m.ListRight) (hFind : m.tab.find id = some ptr)
    (h : m.apps.setQuotaNew quota ptr = some (apps, quota')) :
    { m with apps := apps }.ListRight ↔ (WaitCall.setQuotaNew quota ptr : WaitCall Id).Keeps m := by
  obtain ⟨node, version, hNode, -, hQuota, -, hLook⟩ := AppNodes.setQuotaNew_eq h
  have hList := AppNodes.setQuotaNew_list h hNode
  have hListed := (hLinked.listedRight_iff hNode).mp (hRight id ptr hFind)
  have hNode' : apps.node? ptr =
      some { node with tokenQuotaNew := quota', version := version } := by
    rw [hLook, if_pos rfl]
  have hKeeps : (WaitCall.setQuotaNew quota ptr : WaitCall Id).Keeps m ↔
      quota' = node.tokenQuotaNew ∨ node.tokenQuota < quota' ∨
        quota' < node.tokenQuotaNew ∧ node.tokenQuotaNew ≤ node.tokenQuota := by
    rw [hQuota]
    constructor
    · exact fun hKeeps => hKeeps node hNode
    · intro hKeeps node₁ hNode₁
      obtain rfl := Option.some.inj (hNode.symm.trans hNode₁)
      exact hKeeps
  rw [hKeeps, hRight.iff_at (linked_setQuotaNew hLinked hFind h) rfl hFind hNode' fun x hx => ?_]
  · simp only [hList]
    by_cases hUp : node.tokenQuotaNew < quota'
    · -- the node is put on the list, whatever it has
      rw [if_pos hUp, WaitIncreaseList.mem_enqueue]
      simp only [or_true, true_iff]
      bv_omega
    · rw [if_neg hUp, hListed]
      bv_omega
  · refine ⟨by simp only [hLook, if_neg hx], ?_⟩
    simp only [hList]
    split
    · simp [hx]
    · rfl

-- ---------------------------------------------------------------------------
-- Messages
-- ---------------------------------------------------------------------------

/-- `node_rcvd` writes to the node of the id, if there is one; the pool gets
what it sets free. -/
theorem rcvdSection_cases {a2d : App2Dispatch} (h : m.rcvdSection id a2d = some m') :
    m.tab.find id = none ∧ m' = m ∨
    ∃ ptr node, m.tab.find id = some ptr ∧ m.apps.node? ptr = some node ∧ m'.tab = m.tab ∧
      m'.nextNode = m.nextNode ∧ m'.apps = m.apps.setNode (node.rcvd a2d 0).1 := by
  obtain ⟨⟨m₁, found⟩, hRcvd, h⟩ := Option.bind_eq_some_iff.mp h
  unfold nodeRcvd at hRcvd
  split at hRcvd
  · rename_i hFind
    simp only [Option.some.injEq, Prod.mk.injEq] at hRcvd
    obtain ⟨rfl, rfl⟩ := hRcvd
    exact Or.inl ⟨hFind, (Option.some.inj h).symm⟩
  · rename_i ptr hFind
    obtain ⟨node, hNode, hRcvd⟩ := Option.bind_eq_some_iff.mp hRcvd
    have hReset := node.rcvd_isReset a2d 0
    simp only [Option.pure_def, Option.some.injEq, Prod.mk.injEq, hReset] at hRcvd
    obtain ⟨rfl, rfl⟩ := hRcvd
    simp only at h
    split at h <;> obtain rfl := Option.some.inj h <;>
      exact Or.inr ⟨ptr, node, hFind, hNode, rfl, rfl, rfl⟩

theorem linked_rcvd {a2d : App2Dispatch} (hLinked : m.Linked)
    (h : m.rcvdSection id a2d = some m') : m'.Linked := by
  rcases rcvdSection_cases h with ⟨-, rfl⟩ | ⟨ptr, node, -, hNode, hTab, hNext, hApps⟩
  · exact hLinked
  · refine hLinked.of_sublist hTab (Nat.le_of_eq hNext.symm) (fun x hx => ?_) ?_
    · rw [hApps, AppNodes.node?_setNode_rcvd hNode]
      split
      · rfl
      · exact hx
    · rw [hApps]
      exact List.Sublist.refl _

theorem rcvd_iff {a2d : App2Dispatch} (hLinked : m.Linked) (hRight : m.ListRight)
    (h : m.rcvdSection id a2d = some m') : m'.ListRight ↔ (WaitCall.rcvd id a2d).Keeps m := by
  have hLinked' := linked_rcvd hLinked h
  rcases rcvdSection_cases h with ⟨hNone, rfl⟩ | ⟨ptr, node, hFind, hNode, hTab, -, hApps⟩
  · refine iff_of_true hRight fun ptr node hFind => ?_
    rw [hNone] at hFind
    cases hFind
  · have hListed := (hLinked.listedRight_iff hNode).mp (hRight id ptr hFind)
    have hNode' : m'.apps.node? ptr = some (node.rcvd a2d 0).1 := by
      rw [hApps, AppNodes.node?_setNode_rcvd hNode, if_pos rfl]
    have hSameList : m'.apps.lheadWaitIncrease = m.apps.lheadWaitIncrease := by
      rw [hApps]
      rfl
    have hKeeps : (WaitCall.rcvd id a2d).Keeps m ↔ (a2d.version = node.version →
        node.tokenQuota < node.tokenQuotaNew → a2d.tokenInUse < node.tokenQuotaNew) := by
      constructor
      · exact fun hKeeps => hKeeps ptr node hFind hNode
      · intro hKeeps ptr₁ node₁ hFind₁ hNode₁
        obtain rfl := Option.some.inj (hFind.symm.trans hFind₁)
        obtain rfl := Option.some.inj (hNode.symm.trans hNode₁)
        exact hKeeps
    rw [hKeeps, hRight.iff_at hLinked' hTab hFind hNode' fun x hx =>
      ⟨by rw [hApps, AppNodes.node?_setNode_rcvd hNode, if_neg hx], by rw [hSameList]⟩,
      hSameList, hListed]
    have hMin := BitVec.le_def.mp (ULong.cmin_le_right a2d.tokenInUse node.tokenQuotaNew)
    have hMinNat := ULong.toNat_cmin a2d.tokenInUse node.tokenQuotaNew
    rcases node.rcvd_cases a2d 0 with ⟨⟨press, heq⟩, hNotRaised⟩ | ⟨hVersion, hRaised, heq⟩
    · rw [heq]
      refine iff_of_true Iff.rfl fun hVersion hLess => ?_
      have := hNotRaised hVersion
      simp only [BitVec.lt_def, BitVec.le_def] at *
      omega
    · -- the node gets what is confirmed, up to its target
      rw [heq]
      simp only [hVersion, forall_const, BitVec.lt_def] at *
      omega

-- ---------------------------------------------------------------------------
-- Serving the list
-- ---------------------------------------------------------------------------

/-- One round: a node that has its target is passed over, one whose tokens are in
the pool goes off the list, and the first other one ends the loop. -/
theorem updateTokenQuota_cases (m : DispManager ops) (node : AppNode) :
    ¬ node.tokenQuota < node.tokenQuotaNew ∧
      node.updateTokenQuota m globalTryAlloc waitIncreaseErase = (m, true) ∨
    node.tokenQuota < node.tokenQuotaNew ∧
      ∃ tokens, tokens = (m.tokens.tryAlloc (node.tokenQuotaNew - node.tokenQuota)).1 ∧
      (¬ m.tokens.tokenFree < node.tokenQuotaNew - node.tokenQuota ∧
        node.updateTokenQuota m globalTryAlloc waitIncreaseErase =
          ({ m with tokens := tokens }.waitIncreaseErase node.ptr, true) ∨
      m.tokens.tokenFree < node.tokenQuotaNew - node.tokenQuota ∧
        node.updateTokenQuota m globalTryAlloc waitIncreaseErase =
          ({ m with tokens := tokens }, false)) := by
  unfold AppNode.updateTokenQuota
  split
  · rename_i hLess
    refine Or.inr ⟨hLess, _, rfl, ?_⟩
    simp only [globalTryAlloc, TokenGlobal.tryAlloc, ULong.cmin]
    split
    · rename_i hShort
      exact Or.inr ⟨hShort, if_neg (BitVec.ne_of_lt hShort)⟩
    · rename_i hEnough
      exact Or.inl ⟨hEnough, if_pos rfl⟩
  · rename_i hNot
    exact Or.inl ⟨hNot, rfl⟩

/-- Serving the list takes nodes off it, and touches neither the nodes nor the
table. -/
theorem tryClearWaitIncrease_frame {fuel : Nat} (h : m.tryClearWaitIncrease fuel = some m') :
    m'.tab = m.tab ∧ m'.nextNode = m.nextNode ∧ (∀ x, m'.apps.node? x = m.apps.node? x) ∧
      m'.apps.lheadWaitIncrease.head.Sublist m.apps.lheadWaitIncrease.head := by
  induction fuel generalizing m with
  | zero => cases h
  | succ fuel ih =>
    unfold tryClearWaitIncrease at h
    split at h
    · obtain rfl := Option.some.inj h
      exact ⟨rfl, rfl, fun _ => rfl, List.Sublist.refl _⟩
    · rename_i ptr _
      obtain ⟨node, hNode, h⟩ := Option.bind_eq_some_iff.mp h
      rcases m.updateTokenQuota_cases node with ⟨-, heq⟩ | ⟨-, tokens, -, ⟨-, heq⟩ | ⟨-, heq⟩⟩ <;>
        simp only [heq] at h
      · exact ih h
      · obtain ⟨hTab, hNext, hNodes, hList⟩ := ih h
        exact ⟨hTab, hNext, hNodes, hList.trans List.filter_sublist⟩
      · obtain rfl := Option.some.inj h
        exact ⟨rfl, rfl, fun _ => rfl, List.Sublist.refl _⟩

theorem linked_clear {fuel : Nat} (hLinked : m.Linked)
    (h : m.tryClearWaitIncrease fuel = some m') : m'.Linked := by
  obtain ⟨hTab, hNext, hNodes, hList⟩ := tryClearWaitIncrease_frame h
  refine hLinked.of_sublist hTab (Nat.le_of_eq hNext.symm) (fun x hx => ?_) hList
  rw [hNodes]
  exact hx

/-- A node that is served leaves the list, and has no more than before. -/
theorem clear_iff {fuel : Nat} (hLinked : m.Linked) (hRight : m.ListRight)
    (h : m.tryClearWaitIncrease fuel = some m') :
    m'.ListRight ↔ (WaitCall.clearWaitIncrease : WaitCall Id).Keeps m := by
  cases fuel with
  | zero => cases h
  | succ fuel =>
    unfold tryClearWaitIncrease at h
    split at h
    · rename_i hEmpty
      obtain rfl := Option.some.inj h
      refine iff_of_true hRight fun ptr node hFirst => ?_
      rw [hEmpty] at hFirst
      cases hFirst
    · rename_i ptr hFirst
      obtain ⟨node, hNode, h⟩ := Option.bind_eq_some_iff.mp h
      have hMem : ptr ∈ m.apps.lheadWaitIncrease.head := List.mem_of_head? hFirst
      obtain ⟨id, hFind⟩ := hLinked.queued ptr hMem
      have hLess := ((hLinked.listedRight_iff hNode).mp (hRight id ptr hFind)).mp hMem
      have hKeeps : (WaitCall.clearWaitIncrease : WaitCall Id).Keeps m ↔
          m.tokens.tokenFree < node.tokenQuotaNew - node.tokenQuota := by
        constructor
        · exact fun hKeeps => hKeeps ptr node hFirst hNode
        · intro hKeeps ptr₁ node₁ hFirst₁ hNode₁
          obtain rfl := Option.some.inj (hFirst.symm.trans hFirst₁)
          obtain rfl := Option.some.inj (hNode.symm.trans hNode₁)
          exact hKeeps
      rw [hKeeps]
      rcases m.updateTokenQuota_cases node with
        ⟨hNot, -⟩ | ⟨-, tokens, -, ⟨hEnough, heq⟩ | ⟨hShort, heq⟩⟩
      · exact absurd hLess hNot
      · simp only [heq] at h
        refine iff_of_false (fun hRight' => ?_) hEnough
        obtain ⟨hTab, -, hNodes, hList⟩ := tryClearWaitIncrease_frame h
        obtain ⟨node', hNode', hListed, -⟩ := hRight' id ptr (hTab ▸ hFind)
        obtain rfl := Option.some.inj (hNode.symm.trans ((hNodes ptr).symm.trans hNode'))
        have hStill := hList.subset (hListed.mpr hLess)
        rw [AppNodes.ptr_of_node? hNode] at hStill
        exact (WaitIncreaseList.mem_erase.mp hStill).2 rfl
      · simp only [heq] at h
        obtain rfl := Option.some.inj h
        exact iff_of_true hRight hShort

-- ---------------------------------------------------------------------------
-- Nodes that come and go
-- ---------------------------------------------------------------------------

/-- `node` came online for `id`, under the next address and with what it has as
its target. -/
structure CameOnline (m m' : DispManager ops) (id : Id) (node : AppNode) : Prop where
  insert   : m.tab.insert id node.ptr = some (m'.tab, .ok)
  ptr_eq   : node.ptr = m.nextNode
  next_eq  : m'.nextNode = m.nextNode + 1
  quota_eq : node.tokenQuota = node.tokenQuotaNew
  apps_eq  : m'.apps = { m.apps with nodes := node :: m.apps.nodes }

/-- A node comes online, or nothing comes of it. -/
theorem onlineSection_cases {done : Bool} (h : m.onlineSection id = some (m', done)) :
    m'.tab = m.tab ∧ m'.apps = m.apps ∧ m.nextNode ≤ m'.nextNode ∨
      ∃ node, CameOnline m m' id node := by
  unfold onlineSection at h
  split at h
  · simp only [Option.some.injEq, Prod.mk.injEq] at h
    obtain ⟨rfl, -⟩ := h
    exact Or.inl ⟨rfl, rfl, Nat.le_refl _⟩
  · simp only at h
    split at h
    · simp only [Option.some.injEq, Prod.mk.injEq] at h
      obtain ⟨rfl, -⟩ := h
      exact Or.inl ⟨rfl, rfl, Nat.le_succ _⟩
    · rename_i hFind
      obtain ⟨⟨tokens, node, err⟩, hOnline, h⟩ := Option.bind_eq_some_iff.mp h
      simp only at h
      rcases TokenGlobal.online_cases hOnline with ⟨-, rfl, rfl, rfl⟩ | ⟨-, rfl, rfl, -⟩
      · simp only [reduceCtorEq, if_false, Option.pure_def, Option.some.injEq, Prod.mk.injEq] at h
        obtain ⟨rfl, -⟩ := h
        exact Or.inl ⟨rfl, rfl, Nat.le_succ _⟩
      · obtain ⟨⟨tab, tabErr⟩, hInsert, h⟩ := Option.bind_eq_some_iff.mp h
        obtain rfl := HashTable.insert_new hFind hInsert
        simp only [if_true, Option.pure_def, Option.some.injEq, Prod.mk.injEq] at h
        obtain ⟨rfl, -⟩ := h
        exact Or.inr ⟨_, hInsert, rfl, rfl, rfl, rfl⟩

namespace CameOnline

variable {node : AppNode}

theorem find_cases (ho : CameOnline m m' id node) (hLinked : m.Linked) {id' : Id} {ptr : AppNodePtr}
    (h : m'.tab.find id' = some ptr) :
    ops.Same id id' ∧ ptr = node.ptr ∨ m.tab.find id' = some ptr ∧ ptr ≠ node.ptr := by
  rw [(HashTable.find_insert ho.insert).2] at h
  split at h
  · exact Or.inl ⟨‹_›, (Option.some.inj h).symm⟩
  · refine Or.inr ⟨h, Nat.ne_of_lt ?_⟩
    rw [ho.ptr_eq]
    exact hLinked.older id' ptr h

theorem node?_eq (ho : CameOnline m m' id node) (x : AppNodePtr) :
    m'.apps.node? x = if x = node.ptr then some node else m.apps.node? x := by
  rw [ho.apps_eq, AppNodes.node?_cons]

theorem list_eq (ho : CameOnline m m' id node) :
    m'.apps.lheadWaitIncrease = m.apps.lheadWaitIncrease := by
  rw [ho.apps_eq]

theorem linked (ho : CameOnline m m' id node) (hLinked : m.Linked) : m'.Linked := by
  constructor
  · intro id' ptr h
    rw [ho.next_eq]
    rcases ho.find_cases hLinked h with ⟨-, rfl⟩ | ⟨h, -⟩
    · exact ho.ptr_eq ▸ Nat.lt_succ_self _
    · exact Nat.lt_succ_of_lt (hLinked.older id' ptr h)
  · intro id' ptr h
    rw [ho.node?_eq]
    split
    · rfl
    · rcases ho.find_cases hLinked h with ⟨-, hEq⟩ | ⟨h, -⟩
      · exact absurd hEq ‹_›
      · exact hLinked.stored id' ptr h
  · intro id₁ id₂ ptr h₁ h₂
    rcases ho.find_cases hLinked h₁ with ⟨hs₁, rfl⟩ | ⟨h₁, hNew⟩ <;>
      rcases ho.find_cases hLinked h₂ with ⟨hs₂, hEq⟩ | ⟨h₂, hNew'⟩
    · exact hs₁.symm.trans hs₂
    · exact absurd rfl hNew'
    · exact absurd hEq hNew
    · exact hLinked.apart id₁ id₂ ptr h₁ h₂
  · intro ptr h
    rw [ho.list_eq] at h
    obtain ⟨id', h'⟩ := hLinked.queued ptr h
    refine ⟨id', ?_⟩
    rw [(HashTable.find_insert ho.insert).2, if_neg fun hs => ?_]
    · exact h'
    · rw [HashTable.find_congr hs.symm, (HashTable.find_insert (x := id) ho.insert).1] at h'
      cases h'
  · exact ho.list_eq ▸ hLinked.nodup

/-- The new node has its target, and is on no list. -/
theorem listRight (ho : CameOnline m m' id node) (hLinked : m.Linked) (hRight : m.ListRight) :
    m'.ListRight := by
  have hLinked' := ho.linked hLinked
  intro id' ptr h
  rcases ho.find_cases hLinked h with ⟨-, rfl⟩ | ⟨h', hNe⟩
  · refine (hLinked'.listedRight_iff (by rw [ho.node?_eq, if_pos rfl])).mpr ?_
    rw [ho.quota_eq, ho.list_eq]
    refine iff_of_false (fun hMem => ?_) (BitVec.lt_irrefl _)
    obtain ⟨id₁, h₁⟩ := hLinked.queued _ hMem
    exact absurd (hLinked.older id₁ _ h₁) (by rw [ho.ptr_eq]; exact Nat.lt_irrefl _)
  · obtain ⟨node₁, hNode₁, hListed, -⟩ := hRight id' ptr h'
    refine (hLinked'.listedRight_iff (by rw [ho.node?_eq, if_neg hNe]; exact hNode₁)).mpr ?_
    rw [ho.list_eq]
    exact hListed

end CameOnline

/-- A node that comes online does not wait. -/
theorem linked_online {done : Bool} (hLinked : m.Linked)
    (h : m.onlineSection id = some (m', done)) :
    m'.Linked ∧ (m.ListRight → m'.ListRight) := by
  rcases onlineSection_cases h with ⟨hTab, hApps, hNext⟩ | ⟨node, ho⟩
  · refine ⟨hLinked.of_sublist hTab hNext (fun x hx => hApps ▸ hx) (hApps ▸ List.Sublist.refl _), ?_⟩
    intro hRight
    unfold ListRight
    rw [hTab, hApps]
    exact hRight
  · exact ⟨ho.linked hLinked, ho.listRight hLinked⟩

/-- A node that goes takes its place on the list with it. -/
theorem linked_leave (hLinked : m.Linked) (id : Id) :
    (m.leave id).Linked ∧ (m.ListRight → (m.leave id).ListRight) := by
  unfold leave
  split
  · rename_i tab ptr hErase
    have hPtr : m.tab.find id = some ptr := by
      rw [← HashTable.erase_snd, hErase]
    have hFind : ∀ id' x, tab.find id' = some x →
        m.tab.find id' = some x ∧ x ≠ ptr := by
      intro id' x h'
      rw [show tab = (m.tab.erase id).1 by rw [hErase], HashTable.find_erase] at h'
      split at h'
      · cases h'
      · refine ⟨h', ?_⟩
        rintro rfl
        exact absurd (hLinked.apart id id' x hPtr h') ‹_›
    have hLinked' : ({ m with tab := tab }.waitIncreaseErase ptr).Linked := by
      refine ⟨fun id' x h' => hLinked.older id' x (hFind id' x h').1,
        fun id' x h' => hLinked.stored id' x (hFind id' x h').1,
        fun id₁ id₂ x h₁ h₂ => hLinked.apart id₁ id₂ x (hFind id₁ x h₁).1 (hFind id₂ x h₂).1,
        fun x hx => ?_, WaitIncreaseList.nodup_erase hLinked.nodup ptr⟩
      obtain ⟨hx, hne⟩ := WaitIncreaseList.mem_erase.mp hx
      obtain ⟨id', h'⟩ := hLinked.queued x hx
      refine ⟨id', ?_⟩
      show tab.find id' = some x
      rw [show tab = (m.tab.erase id).1 by rw [hErase], HashTable.find_erase, if_neg fun hs => ?_]
      · exact h'
      · rw [HashTable.find_congr hs.symm, hPtr] at h'
        exact hne (Option.some.inj h').symm
    refine ⟨hLinked', fun hRight id' x h' => ?_⟩
    obtain ⟨h', hne⟩ := hFind id' x h'
    obtain ⟨node₁, hNode₁, hListed, -⟩ := hRight id' x h'
    refine (hLinked'.listedRight_iff hNode₁).mpr ?_
    rw [← hListed]
    exact WaitIncreaseList.mem_erase.trans (and_iff_left hne)
  · exact ⟨hLinked, fun hRight => hRight⟩

-- ---------------------------------------------------------------------------
-- Steps and runs
-- ---------------------------------------------------------------------------

theorem linked_step {call : WaitCall Id} (hLinked : m.Linked) (h : m.WaitStep call m') :
    m'.Linked := by
  cases call with
  | increase cost =>
    obtain rfl := h
    exact ⟨hLinked.older, hLinked.stored, hLinked.apart, hLinked.queued, hLinked.nodup⟩
  | reduce cost =>
    obtain rfl := h
    exact ⟨hLinked.older, hLinked.stored, hLinked.apart, hLinked.queued, hLinked.nodup⟩
  | online id =>
    obtain ⟨done, h⟩ := h
    exact (linked_online hLinked h).1
  | setQuotaNew quota ptr =>
    obtain ⟨⟨id, hFind⟩, apps, quota', h, rfl⟩ := h
    exact linked_setQuotaNew hLinked hFind h
  | clearWaitIncrease =>
    obtain ⟨fuel, h⟩ := h
    exact linked_clear hLinked h
  | rcvd id a2d => exact linked_rcvd hLinked h
  | leave id =>
    obtain rfl := h
    exact (linked_leave hLinked id).1

/-- **One call** from a list that is right. -/
theorem wait_step_iff {call : WaitCall Id} (hLinked : m.Linked) (hRight : m.ListRight)
    (h : m.WaitStep call m') : m'.Linked ∧ (m'.ListRight ↔ call.Keeps m) := by
  refine ⟨linked_step hLinked h, ?_⟩
  cases call with
  | increase cost =>
    obtain rfl := h
    exact iff_of_true hRight trivial
  | reduce cost =>
    obtain rfl := h
    exact iff_of_true hRight trivial
  | online id =>
    obtain ⟨done, h⟩ := h
    exact iff_of_true ((linked_online hLinked h).2 hRight) trivial
  | setQuotaNew quota ptr =>
    obtain ⟨⟨id, hFind⟩, apps, quota', h, rfl⟩ := h
    exact setQuotaNew_iff hLinked hRight hFind h
  | clearWaitIncrease =>
    obtain ⟨fuel, h⟩ := h
    exact clear_iff hLinked hRight h
  | rcvd id a2d => exact rcvd_iff hLinked hRight h
  | leave id =>
    obtain rfl := h
    exact iff_of_true ((linked_leave hLinked id).2 hRight) trivial

theorem linked_init (h : (waitSystem ops).init m) : m.Linked ∧ m.ListRight := by
  obtain ⟨tableLen, maxNodeNum, updateInterval, minRsNum, hPos, rfl⟩ := h
  have hNone : ∀ id ptr, (init ops tableLen maxNodeNum updateInterval minRsNum hPos).tab.find id ≠
      some ptr := by
    intro id ptr h
    simp [init] at h
  refine ⟨⟨fun id ptr h => absurd h (hNone id ptr), fun id ptr h => absurd h (hNone id ptr),
    fun id _ ptr h => absurd h (hNone id ptr), ?_, ?_⟩, fun id ptr h => absurd h (hNone id ptr)⟩
  · simp [init]
  · simp [init]

end DispManager

/-- **The wait-increase list** is right in every state of exactly the runs whose
calls keep it. -/
theorem wait_list_iff {m₀ m : DispManager ops} {tr : List (WaitTransition ops)}
    (hInit : (waitSystem ops).init m₀) (hRun : Run (waitSystem ops) m₀ tr m) :
    (∀ x ∈ tr, x.post.ListRight) ↔ ∀ x ∈ tr, x.act.Keeps x.pre := by
  refine (hRun.forall_iff (I := fun m => m.Linked ∧ m.ListRight) ?_
    (DispManager.linked_init hInit)).1
  rintro s a t ⟨hLinked, hRight⟩ hStep
  obtain ⟨hLinked', hIff⟩ := DispManager.wait_step_iff hLinked hRight hStep
  exact ⟨hIff, fun hRight' => ⟨hLinked', hRight'⟩⟩

section OneWaits

def emptyDispatcher : DispManager IdOps.nat := .init IdOps.nat 2 1 5 10 Nat.two_pos

def stockedDispatcher : DispManager IdOps.nat := emptyDispatcher.increaseSection 100

/-- One app is online, with its minimum of 10 tokens. -/
def oneHasMinimum : DispManager IdOps.nat := ((stockedDispatcher.onlineSection 1).get (by decide)).1

/-- It is promised 20 tokens. -/
def oneWaits : DispManager IdOps.nat :=
  { oneHasMinimum with apps := ((oneHasMinimum.apps.setQuotaNew 20 0).get (by decide)).1 }

/-- It has ten tokens of twenty. -/
def tenOfTwenty : AppNode :=
  { AppNode.init 0 10 0 with tokenQuota := 10, tokenQuotaNew := 20, version := 1 }

def oneWaitsRun : List (WaitTransition IdOps.nat) :=
  [⟨emptyDispatcher, .increase 100, stockedDispatcher⟩,
    ⟨stockedDispatcher, .online 1, oneHasMinimum⟩, ⟨oneHasMinimum, .setQuotaNew 20 0, oneWaits⟩]

/-- It is served. -/
def oneServed : DispManager IdOps.nat := (oneWaits.tryClearWaitIncrease 2).get (by decide)

theorem emptyDispatcher_initial : (waitSystem IdOps.nat).init emptyDispatcher :=
  ⟨2, 1, 5, 10, Nat.two_pos, rfl⟩

theorem run_oneWaits : Run (waitSystem IdOps.nat) emptyDispatcher oneWaitsRun oneWaits := by
  have hIncrease : (waitSystem IdOps.nat).step emptyDispatcher (.increase 100) stockedDispatcher :=
    rfl
  have hOnline : (waitSystem IdOps.nat).step stockedDispatcher (.online 1) oneHasMinimum :=
    ⟨true, (Option.some_get (by decide)).symm⟩
  have hPromise : (waitSystem IdOps.nat).step oneHasMinimum (.setQuotaNew 20 0) oneWaits :=
    ⟨⟨1, by decide⟩, oneWaits.apps, 20, by decide, rfl⟩
  exact ((Run.nil.snoc hIncrease).snoc hOnline).snoc hPromise

theorem wait_list_one_waits : oneHasMinimum.ListRight ∧ oneWaits.ListRight := by
  suffices hKeeps : ∀ x ∈ oneWaitsRun, x.act.Keeps x.pre by
    have hRight := (wait_list_iff emptyDispatcher_initial run_oneWaits).mpr hKeeps
    simp only [oneWaitsRun, List.forall_mem_cons] at hRight
    exact ⟨hRight.2.1, hRight.2.2.1⟩
  simp only [oneWaitsRun, List.forall_mem_cons, WaitCall.Keeps]
  refine ⟨trivial, trivial, fun node hNode => ?_, by simp⟩
  have hAtMinimum : oneHasMinimum.apps.node? 0 =
      some { AppNode.init 0 10 0 with tokenQuota := 10, tokenQuotaNew := 10 } := by decide
  obtain rfl := Option.some.inj (hAtMinimum.symm.trans hNode)
  decide

/-- The pool has 10 tokens less, the app has no more, and does not wait any
longer. -/
theorem served_node_leaves_list :
    ¬ ∀ (m₀ m : DispManager IdOps.nat) (tr : List (WaitTransition IdOps.nat)),
      (waitSystem IdOps.nat).init m₀ → Run (waitSystem IdOps.nat) m₀ tr m →
      ∀ x ∈ tr, x.post.ListRight := by
  intro hAlways
  have hServe : (waitSystem IdOps.nat).step oneWaits .clearWaitIncrease oneServed :=
    ⟨2, (Option.some_get (by decide)).symm⟩
  have hRight := hAlways _ _ _ emptyDispatcher_initial (run_oneWaits.snoc hServe) _
    (List.mem_append_right _ (List.mem_singleton_self _))
  obtain ⟨node, hNode, hListed, -⟩ := hRight 1 0 (by decide)
  have hPromised : oneServed.apps.node? 0 = some tenOfTwenty := by decide
  obtain rfl := Option.some.inj (hPromised.symm.trans hNode)
  revert hListed
  decide

end OneWaits

end DatastorQos
