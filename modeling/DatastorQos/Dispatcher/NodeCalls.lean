import Mathlib.Logic.Relation
import DatastorQos.Dispatcher.Announcements
import DatastorQos.Dispatcher.Messages

/-!
# datastor_qos — the dispatcher acts on a node by the node's own calls

What is known of a single app node (which targets it gets, what a message does
to it, what it announces) says something about the dispatcher because the
dispatcher does nothing else to it.

* `rebalance_rule` — what holds of each write a rebalance makes holds of the
  rebalance;
* `Called` — every node is where calls of `appNodeSystem` lead it, up to the
  part of it that a rebalance works on;
* `section_called` — so it is after every section of the dispatcher, and a node
  that is new to the table was brought online once.
-/

namespace DatastorQos

open Runs Relation

variable {Id : Type} {ops : IdOps Id}

-- ---------------------------------------------------------------------------
-- A rebalance, write by write
-- ---------------------------------------------------------------------------

section RebalanceRule

variable {R : AppNodes → AppNodes → Prop} (hRefl : ∀ s, R s s)
  (hTrans : ∀ {s s₁ s'}, R s s₁ → R s₁ s' → R s s')
  (hInit : ∀ {s : AppNodes} {ptr node}, s.node? ptr = some node → R s (s.setNode node.initUpdateNode))
  (hTmp : ∀ {s : AppNodes} {ptr node} quota, s.node? ptr = some node →
    R s (s.setNode (node.setTmpTokenQuota quota)))
  (hSet : ∀ {s s' : AppNodes} {quota ptr quota'}, s.setQuotaNew quota ptr = some (s', quota') → R s s')

include hRefl hTrans

/-- What each turn of a pass keeps, the pass keeps: by induction on its nodes. -/
theorem spend_rule {updateNode : AppNodes → ULong → AppNodePtr → Option (AppNodes × ULong)}
    (hNode : ∀ s tokenLeft pos s' used, updateNode s tokenLeft pos = some (s', used) → R s s')
    {ptrs visited : List AppNodePtr} {tokenLeft tokenLeft' : ULong} {s s' : AppNodes}
    (h : TokenUpdateCtx.spend updateNode ptrs tokenLeft s = some (s', tokenLeft', visited)) :
    R s s' := by
  induction ptrs generalizing s tokenLeft visited with
  | nil =>
    simp only [TokenUpdateCtx.spend, Option.some.injEq, Prod.mk.injEq] at h
    exact h.1 ▸ hRefl s
  | cons pos rest ih =>
    obtain ⟨⟨s₁, used⟩, hFirst, h⟩ := Option.bind_eq_some_iff.mp h
    have hHead := hNode _ _ _ _ _ hFirst
    simp only at h
    split at h
    · simp only [Option.pure_def, Option.some.injEq, Prod.mk.injEq] at h
      exact h.1 ▸ hHead
    · obtain ⟨⟨s₂, tokenLeft₂, visited₂⟩, hRest, h⟩ := Option.bind_eq_some_iff.mp h
      simp only [Option.pure_def, Option.some.injEq, Prod.mk.injEq] at h
      obtain ⟨rfl, rfl, -⟩ := h
      exact hTrans hHead (ih hRest)

include hTmp hSet

omit hRefl in
/-- The visit of one node, in either pass. -/
theorem visit_rule {s s' : AppNodes} {pos : AppNodePtr} {node : AppNode} {tmp quota quota' : ULong}
    (hNode : s.node? pos = some node)
    (h : (s.setNode (node.setTmpTokenQuota tmp)).setQuotaNew quota pos = some (s', quota')) :
    R s s' :=
  hTrans (hTmp tmp hNode) (hSet h)

/-- And both passes. -/
theorem update_rule {ctx ctx' : TokenUpdateCtx} {s s' : AppNodes} {assigned : List AppNodePtr}
    (h : ctx.update s AppNodes.setQuotaNew = some (ctx', s', assigned)) : R s s' := by
  obtain ⟨⟨s₁, tokenLeft, visited⟩, hFirst, h⟩ := Option.bind_eq_some_iff.mp h
  obtain ⟨⟨s₂, tokenLeft₂, visited₂⟩, hSecond, h⟩ := Option.bind_eq_some_iff.mp h
  simp only [Option.pure_def, Option.some.injEq, Prod.mk.injEq] at h
  obtain ⟨-, rfl, -⟩ := h
  refine hTrans (spend_rule hRefl hTrans (fun s _ pos s' used h => ?_) hFirst)
    (spend_rule hRefl hTrans (fun s tokenLeft pos s' used h => ?_) hSecond)
  · obtain ⟨node, hNode, h⟩ := Option.bind_eq_some_iff.mp h
    split at h
    · obtain ⟨⟨s₁, quota⟩, hQuota, h⟩ := Option.bind_eq_some_iff.mp h
      simp only [Option.pure_def, Option.some.injEq, Prod.mk.injEq] at h
      obtain ⟨rfl, -⟩ := h
      exact visit_rule (R := R) hTrans hTmp hSet hNode hQuota
    · cases h
  · obtain ⟨node, hNode, h⟩ := Option.bind_eq_some_iff.mp h
    obtain ⟨⟨s₁, quota⟩, hQuota, h⟩ := Option.bind_eq_some_iff.mp h
    simp only [Option.pure_def, Option.some.injEq, Prod.mk.injEq] at h
    obtain ⟨rfl, -⟩ := h
    exact visit_rule (R := R) hTrans hTmp hSet hNode hQuota

include hInit

/-- **Rebalance rule.** A relation that is reflexive and transitive, and holds of
the three writes a rebalance is made of, holds of the rebalance. -/
theorem rebalance_rule {m m' : DispManager ops} (h : m.updateNodesTokenQuotaNew = some m') :
    ∃ apps updateCtx, m' = { m with apps := apps, updateCtx := updateCtx } ∧ R m.apps apps := by
  have hAdd : ∀ {ptrs : List AppNodePtr} {ctx ctx' : TokenUpdateCtx} {s s' : AppNodes},
      ctx.addResources s ptrs = some (ctx', s') → R s s' := by
    intro ptrs
    induction ptrs with
    | nil =>
      intro ctx ctx' s s' h
      simp only [TokenUpdateCtx.addResources, Option.some.injEq, Prod.mk.injEq] at h
      exact h.2 ▸ hRefl s
    | cons ptr ptrs ih =>
      intro ctx ctx' s s' h
      obtain ⟨⟨ctx₁, s₁⟩, hAdd, h⟩ := Option.bind_eq_some_iff.mp h
      obtain ⟨node, hNode, hAdd⟩ := Option.bind_eq_some_iff.mp hAdd
      simp only [Option.pure_def, Option.some.injEq, Prod.mk.injEq] at hAdd
      obtain ⟨rfl, rfl⟩ := hAdd
      exact hTrans (hInit hNode) (ih h)
  obtain ⟨⟨ctx₁, s₁⟩, hCollect, h⟩ := Option.bind_eq_some_iff.mp h
  obtain ⟨⟨ctx₂, s₂, assigned⟩, hUpdate, h⟩ := Option.bind_eq_some_iff.mp h
  simp only [Option.pure_def, Option.some.injEq] at h
  exact ⟨s₂, ctx₂, h.symm,
    hTrans (hAdd hCollect) (update_rule hRefl hTrans hTmp hSet hUpdate)⟩

end RebalanceRule

-- ---------------------------------------------------------------------------
-- One node
-- ---------------------------------------------------------------------------

namespace AppNode

/-- The node without the part a rebalance works on. -/
def core (node : AppNode) : AppNode := { node with updatenode := ⟨0, 0, 0⟩ }

/-- A call on a node that is online. -/
def CallStep (node node' : AppNode) : Prop :=
  ∃ call : AppNodeCall, (∀ tokens, call ≠ .online tokens) ∧ call.apply node = some node'

/-- Calls lead from one node to the other. -/
def CalledTo (node node' : AppNode) : Prop := ReflTransGen CallStep node.core node'.core

variable {node node' : AppNode}

theorem CalledTo.refl (node : AppNode) : node.CalledTo node := ReflTransGen.refl

/-- What the dispatcher keeps beside the node is nothing to it. -/
theorem CalledTo.of_core (h : node'.core = node.core) : node.CalledTo node' := by
  unfold CalledTo
  rw [h]

theorem CalledTo.trans {node₁ : AppNode} (h : node.CalledTo node₁) (h' : node₁.CalledTo node') :
    node.CalledTo node' :=
  ReflTransGen.trans h h'

theorem CalledTo.single (call : AppNodeCall) (hNot : ∀ tokens, call ≠ .online tokens)
    (h : call.apply node.core = some node'.core) : node.CalledTo node' :=
  ReflTransGen.single ⟨call, hNot, h⟩

/-- A message is one call. -/
theorem CalledTo.rcvd (node : AppNode) (a2d : App2Dispatch) (freeSize : ULong) :
    node.CalledTo (node.rcvd a2d freeSize).1 := by
  refine .single (.rcvd a2d) (by simp) (congrArg some ?_)
  unfold AppNode.rcvd updateQuotaAfterRcvd core
  simp only
  by_cases hVersion : a2d.version = node.version
  · by_cases hRaise : node.tokenQuota < ULong.cmin a2d.tokenInUse node.tokenQuotaNew
    · simp only [if_pos hVersion, if_pos hRaise]
    · simp only [if_pos hVersion, if_neg hRaise]
  · simp only [if_neg hVersion]

/-- A new target is one call, however the list that it is put on works. -/
theorem CalledTo.updateTokenQuotaNew {σ : Type} {pri pri' : σ} {insertFunc : σ → AppNodePtr → σ}
    {quota quota' : ULong}
    (h : node.updateTokenQuotaNew quota pri insertFunc = some (node', pri', quota')) :
    node.CalledTo node' := by
  refine .single (.updateTokenQuotaNew quota) (by simp) ?_
  simp only [AppNode.updateTokenQuotaNew, Option.ite_none_right_eq_some, Option.some.injEq,
    Prod.mk.injEq] at h
  obtain ⟨hMin, rfl, -, -⟩ := h
  refine Option.map_eq_some_iff.mpr ⟨_, if_pos hMin, ?_⟩
  show (node.core.moveTokenQuotaNew (node.newQuotaUnderLimit quota) () fun _ _ => ()).1 = _
  unfold moveTokenQuotaNew updateTokenQuotaNewDown updateTokenQuotaNewUp updateTokenQuotaNewBase core
  simp only
  split
  · rfl
  · split <;> rfl

/-- So is what the app is charged, -/
theorem CalledTo.dtnAlloc (node : AppNode) (cost fenceId : ULong) :
    node.CalledTo (node.dtnAlloc cost fenceId).1 := by
  refine .single (.alloc cost) (by simp) (congrArg some ?_)
  unfold AppNode.dtnAlloc core
  simp only
  split <;> rfl

/-- and what it gives back. -/
theorem CalledTo.dtnFree {cost fenceId : ULong} (h : node.dtnFree cost fenceId = some node') :
    node.CalledTo node' := by
  refine .single (.free cost fenceId) (by simp) ?_
  show node.core.dtnFree cost fenceId = some node'.core
  unfold AppNode.dtnFree at h ⊢
  split at h
  · rename_i hFence
    rw [if_pos (show node.core.fenceId ≠ fenceId from hFence), Option.some.inj h]
  · rename_i hFence
    rw [if_neg (show ¬ node.core.fenceId ≠ fenceId from hFence)]
    split at h
    · rename_i hCost
      rw [if_pos (show node.core.tokenInuse < cost from hCost), ← Option.some.inj h]
      rfl
    · cases h

theorem ptr_core (h : node.CalledTo node') : node'.ptr = node.ptr := by
  have hStep : ∀ a b : AppNode, CallStep a b → b.ptr = a.ptr := by
    rintro a b ⟨call, hNot, hApply⟩
    cases call with
    | online tokens => exact absurd rfl (hNot tokens)
    | updateTokenQuotaNew quota =>
      obtain ⟨⟨node₁, pri, quota'⟩, hSet, rfl⟩ := Option.map_eq_some_iff.mp hApply
      obtain ⟨-, -, -, version, rfl⟩ := AppNode.updateTokenQuotaNew_eq hSet
      rfl
    | updateTokenQuota => exact Option.some.inj hApply ▸ rfl
    | rcvd a2d =>
      obtain rfl := Option.some.inj hApply
      rcases a.rcvd_cases a2d 0 with ⟨⟨press, heq⟩, -⟩ | ⟨-, -, heq⟩ <;> rw [heq]
    | alloc cost =>
      obtain rfl := Option.some.inj hApply
      unfold AppNode.dtnAlloc
      split <;> rfl
    | free cost fenceId =>
      simp only [AppNodeCall.apply, AppNode.dtnFree] at hApply
      split at hApply
      · exact Option.some.inj hApply ▸ rfl
      · split at hApply
        · exact Option.some.inj hApply ▸ rfl
        · cases hApply
  have hRun : ∀ a b : AppNode, ReflTransGen CallStep a b → b.ptr = a.ptr := by
    intro a b hRun
    induction hRun with
    | refl => rfl
    | tail _ hLast ih => exact (hStep _ _ hLast).trans ih
  exact hRun node.core node'.core h

end AppNode

-- ---------------------------------------------------------------------------
-- All nodes
-- ---------------------------------------------------------------------------

/-- Every node there was is there, where calls led it. -/
def Called (s s' : AppNodes) : Prop :=
  ∀ ptr node, s.node? ptr = some node → ∃ node', s'.node? ptr = some node' ∧ node.CalledTo node'

namespace Called

variable {s s₁ s' : AppNodes} {ptr : AppNodePtr} {node node' : AppNode}

theorem refl (s : AppNodes) : Called s s := fun _ node h => ⟨node, h, .refl node⟩

theorem trans (h : Called s s₁) (h' : Called s₁ s') : Called s s' := by
  intro ptr node hNode
  obtain ⟨node₁, hNode₁, hTo⟩ := h ptr node hNode
  obtain ⟨node', hNode', hTo'⟩ := h' ptr node₁ hNode₁
  exact ⟨node', hNode', hTo.trans hTo'⟩

/-- No node was written. -/
theorem of_same (h : ∀ ptr, s'.node? ptr = s.node? ptr) : Called s s' :=
  fun ptr node hNode => ⟨node, (h ptr).trans hNode, .refl node⟩

/-- One node was written, by calls on it. -/
theorem of_node? (h : ∀ x, s'.node? x = if x = ptr then some node' else s.node? x)
    (hNode : s.node? ptr = some node) (hTo : node.CalledTo node') : Called s s' := by
  intro x nodeX hX
  by_cases hx : x = ptr
  · subst hx
    obtain rfl := Option.some.inj (hNode.symm.trans hX)
    exact ⟨node', by rw [h, if_pos rfl], hTo⟩
  · exact ⟨nodeX, by rw [h, if_neg hx]; exact hX, .refl nodeX⟩

/-- A write to the node at an address. -/
theorem setNode (hNode : s.node? ptr = some node) (hTo : node.CalledTo node') :
    Called s (s.setNode node') := by
  have hPtr : node'.ptr = ptr := (AppNode.ptr_core hTo).trans (AppNodes.ptr_of_node? hNode)
  subst hPtr
  exact of_node? (fun x => AppNodes.node?_setNode node' (Option.isSome_of_eq_some hNode)) hNode hTo

/-- The call that a rebalance makes for each node. -/
theorem setQuotaNew {quota quota' : ULong} (h : s.setQuotaNew quota ptr = some (s', quota')) :
    Called s s' := by
  obtain ⟨node, hNode, h⟩ := Option.bind_eq_some_iff.mp h
  obtain ⟨⟨node', q, quota₁⟩, hSet, h⟩ := Option.bind_eq_some_iff.mp h
  simp only [Option.pure_def, Option.some.injEq, Prod.mk.injEq] at h
  obtain ⟨rfl, -⟩ := h
  exact setNode hNode (.updateTokenQuotaNew hSet)

end Called

namespace DispManager

variable {m m' : DispManager ops}

/-- **A rebalance** is calls on the nodes. -/
theorem rebalance_called (h : m.updateNodesTokenQuotaNew = some m') :
    ∃ apps updateCtx, m' = { m with apps := apps, updateCtx := updateCtx } ∧ Called m.apps apps :=
  rebalance_rule Called.refl Called.trans (fun hNode => Called.setNode hNode (.of_core rfl))
    (fun _ hNode => Called.setNode hNode (.of_core rfl)) Called.setQuotaNew h

-- ---------------------------------------------------------------------------
-- Sections
-- ---------------------------------------------------------------------------

/-- `alloc_tokens` of an id that is in the table, under the lock. -/
def allocSection (m : DispManager ops) (id : Id) (cost : ULong) : Option (DispManager ops) :=
  match m.tab.find id with
  | none => some m
  | some ptr => do
    let node ← m.apps.node? ptr
    return { m with apps := m.apps.setNode (node.dtnAlloc cost 0).1 }

/-- `free_tokens` of an id that is in the table, under the lock. -/
def freeSection (m : DispManager ops) (id : Id) (cost fenceId : ULong) : Option (DispManager ops) :=
  match m.tab.find id with
  | none => some m
  | some ptr => do
    let node ← m.apps.node? ptr
    let node ← node.dtnFree cost fenceId
    return { m with apps := m.apps.setNode node }

/-- Nodes in the table are in memory, addresses are handed out once, and the
guarantee for a new node is the one the manager was made with. -/
structure Placed (minUnits : ULong) (m : DispManager ops) : Prop where
  older  : ∀ id ptr, m.tab.find id = some ptr → ptr < m.nextNode
  stored : ∀ id ptr, m.tab.find id = some ptr → (m.apps.node? ptr).isSome
  units  : m.defaultTokenMin = minUnits ∧ m.tokens.defaultTokenMin = minUnits

/-- What a section does to the node of each id: calls, if it was online before;
else nothing, or it brings one online. -/
structure NodesCalled (m m' : DispManager ops) : Prop where
  stays : ∀ id node, m.onlineNode? id = some node →
    ∃ node', m'.onlineNode? id = some node' ∧ node.CalledTo node'
  joins : ∀ id node', m.onlineNode? id = none → m'.onlineNode? id = some node' →
    ∃ (tokens tokens' : TokenGlobal) (ptr : AppNodePtr) (fenceId : ULong),
      tokens.defaultTokenMin = m.tokens.defaultTokenMin ∧
      tokens.online (.init ptr m.defaultTokenMin fenceId) = some (tokens', node', .ok)

variable {minUnits : ULong} {id : Id}

/-- An id in the table has its node. -/
theorem Placed.onlineNode?_isSome (hp : m.Placed minUnits) {ptr : AppNodePtr}
    (h : m.tab.find id = some ptr) : (m.onlineNode? id).isSome := by
  rw [onlineNode?, h]
  exact hp.stored id ptr h

/-- What leaves the table alone, and calls nodes only. -/
theorem Placed.of_called (hp : m.Placed minUnits) (hTab : m'.tab = m.tab)
    (hNext : m.nextNode ≤ m'.nextNode) (hApps : Called m.apps m'.apps)
    (hUnits : m'.defaultTokenMin = m.defaultTokenMin ∧
      m'.tokens.defaultTokenMin = m.tokens.defaultTokenMin) :
    m'.Placed minUnits ∧ NodesCalled m m' := by
  have hStays : ∀ id node, m.onlineNode? id = some node →
      ∃ node', m'.onlineNode? id = some node' ∧ node.CalledTo node' := by
    intro id node hNode
    obtain ⟨ptr, hFind, hNode⟩ := Option.bind_eq_some_iff.mp hNode
    obtain ⟨node', hNode', hTo⟩ := hApps ptr node hNode
    refine ⟨node', ?_, hTo⟩
    rw [onlineNode?, hTab, hFind]
    exact hNode'
  refine ⟨⟨?_, ?_, ?_⟩, hStays, ?_⟩
  · intro id ptr hFind
    rw [hTab] at hFind
    exact Nat.lt_of_lt_of_le (hp.older id ptr hFind) hNext
  · intro id ptr hFind
    rw [hTab] at hFind
    obtain ⟨node, hNode⟩ := Option.isSome_iff_exists.mp (hp.stored id ptr hFind)
    obtain ⟨node', hNode', -⟩ := hApps ptr node hNode
    rw [hNode']
    rfl
  · rw [hUnits.1, hUnits.2]
    exact hp.units
  · intro id node' hNone hSome
    obtain ⟨ptr, hFind, -⟩ := Option.bind_eq_some_iff.mp hSome
    rw [hTab] at hFind
    have := hp.onlineNode?_isSome hFind
    rw [hNone] at this
    cases this

/-- What every app is guaranteed stays as it was set. -/
theorem TokenGlobal.online_defaultTokenMin {tokens tokens' : TokenGlobal} {node node' : AppNode}
    {err : QosError} (hFresh : node.tokenQuota = 0)
    (h : tokens.online node = some (tokens', node', err)) :
    tokens'.defaultTokenMin = tokens.defaultTokenMin := by
  rw [tokens.online_fresh hFresh] at h
  split at h <;> obtain ⟨rfl, -⟩ := by simpa only [Option.some.injEq, Prod.mk.injEq] using h
  · rfl
  · rfl

/-- A node comes online, or none does. -/
theorem onlineSection_called {done : Bool} (hp : m.Placed minUnits)
    (h : m.onlineSection id = some (m', done)) : m'.Placed minUnits ∧ NodesCalled m m' := by
  unfold onlineSection at h
  split at h
  · simp only [Option.some.injEq, Prod.mk.injEq] at h
    obtain ⟨rfl, -⟩ := h
    exact hp.of_called rfl (Nat.le_refl _) (.refl _) ⟨rfl, rfl⟩
  · simp only at h
    split at h
    · simp only [Option.some.injEq, Prod.mk.injEq] at h
      obtain ⟨rfl, -⟩ := h
      exact hp.of_called rfl (Nat.le_succ _) (.refl _) ⟨rfl, rfl⟩
    · rename_i hFind
      obtain ⟨⟨tokens, node, err⟩, hOnline, h⟩ := Option.bind_eq_some_iff.mp h
      have hMin := TokenGlobal.online_defaultTokenMin rfl hOnline
      simp only at h
      rcases TokenGlobal.online_cases hOnline with ⟨-, rfl, rfl, rfl⟩ | ⟨-, rfl, hNode, -⟩
      · simp only [reduceCtorEq, if_false, Option.pure_def, Option.some.injEq, Prod.mk.injEq] at h
        obtain ⟨rfl, -⟩ := h
        exact hp.of_called rfl (Nat.le_succ _) (.refl _) ⟨rfl, rfl⟩
      · obtain ⟨⟨tab, tabErr⟩, hInsert, h⟩ := Option.bind_eq_some_iff.mp h
        obtain rfl := HashTable.insert_new hFind hInsert
        simp only [if_true, Option.pure_def, Option.some.injEq, Prod.mk.injEq] at h
        obtain ⟨rfl, -⟩ := h
        have hPtr : node.ptr = m.nextNode := by rw [hNode]; rfl
        have hLook : ∀ x, tab.find x = if ops.Same id x then some node.ptr else m.tab.find x :=
          fun x => (HashTable.find_insert hInsert).2
        have hNodes : ∀ x, ({ m.apps with nodes := node :: m.apps.nodes } : AppNodes).node? x =
            if x = node.ptr then some node else m.apps.node? x := AppNodes.node?_cons m.apps node
        have hOld : ∀ x ptr, m.tab.find x = some ptr → ptr ≠ node.ptr := fun x ptr hx => by
          rw [hPtr]
          exact Nat.ne_of_lt (hp.older x ptr hx)
        refine ⟨⟨?_, ?_, ?_⟩, ?_, ?_⟩
        · intro x ptr hx
          rw [hLook] at hx
          split at hx
          · exact Option.some.inj hx ▸ hPtr ▸ Nat.lt_succ_self _
          · exact Nat.lt_succ_of_lt (hp.older x ptr hx)
        · intro x ptr hx
          rw [hLook] at hx
          rw [hNodes]
          split at hx
          · rw [if_pos (Option.some.inj hx).symm]
            rfl
          · rw [if_neg (hOld x ptr hx)]
            exact hp.stored x ptr hx
        · exact ⟨hp.units.1, hMin.trans hp.units.2⟩
        · intro x nodeX hX
          obtain ⟨ptr, hx, hX⟩ := Option.bind_eq_some_iff.mp hX
          refine ⟨nodeX, ?_, .refl nodeX⟩
          have hNotSame : ¬ ops.Same id x := by
            intro hSame
            rw [← HashTable.find_congr hSame, hFind] at hx
            cases hx
          simp only [onlineNode?, hLook, if_neg hNotSame, hx, Option.bind_some, hNodes,
            if_neg (hOld x ptr hx), hX]
        · intro x node' hNone hSome
          obtain ⟨ptr, hx, hSome⟩ := Option.bind_eq_some_iff.mp hSome
          simp only [hLook] at hx
          split at hx
          · obtain rfl := Option.some.inj hx
            simp only [hNodes, if_true, Option.some.injEq] at hSome
            exact ⟨m.tokens, tokens, m.nextNode, m.fenceId, rfl, hSome ▸ hOnline⟩
          · have := hp.onlineNode?_isSome hx
            rw [hNone] at this
            cases this

/-- A message leaves it alone, -/
theorem rcvdSection_units {a2d : App2Dispatch} (h : m.rcvdSection id a2d = some m') :
    m'.defaultTokenMin = m.defaultTokenMin ∧
      m'.tokens.defaultTokenMin = m.tokens.defaultTokenMin := by
  have hFree : ∀ (tokens : TokenGlobal) cost,
      (tokens.gfree cost).defaultTokenMin = tokens.defaultTokenMin := by
    intro tokens cost
    unfold TokenGlobal.gfree
    split <;> rfl
  obtain ⟨⟨m₁, found⟩, hRcvd, h⟩ := Option.bind_eq_some_iff.mp h
  have hFirst : m₁.defaultTokenMin = m.defaultTokenMin ∧ m₁.tokens = m.tokens := by
    unfold nodeRcvd at hRcvd
    split at hRcvd
    · obtain ⟨rfl, -⟩ := Prod.mk.inj (Option.some.inj hRcvd)
      exact ⟨rfl, rfl⟩
    · obtain ⟨node, -, hRcvd⟩ := Option.bind_eq_some_iff.mp hRcvd
      obtain ⟨rfl, -⟩ := Prod.mk.inj (Option.some.inj hRcvd)
      exact ⟨rfl, rfl⟩
  rw [← hFirst.1, ← hFirst.2]
  split at h
  · rename_i heq
    obtain ⟨rfl, -⟩ := Prod.mk.inj heq
    split at h <;> obtain rfl := Option.some.inj h
    · exact ⟨rfl, hFree _ _⟩
    · exact ⟨rfl, rfl⟩
  · rename_i heq
    obtain ⟨rfl, -⟩ := Prod.mk.inj heq
    obtain rfl := Option.some.inj h
    exact ⟨rfl, rfl⟩

/-- and so does serving those that wait. -/
theorem tryClearWaitIncrease_units {fuel : Nat} (h : m.tryClearWaitIncrease fuel = some m') :
    m'.defaultTokenMin = m.defaultTokenMin ∧
      m'.tokens.defaultTokenMin = m.tokens.defaultTokenMin := by
  induction fuel generalizing m with
  | zero => cases h
  | succ fuel ih =>
    unfold tryClearWaitIncrease at h
    split at h
    · obtain rfl := Option.some.inj h
      exact ⟨rfl, rfl⟩
    · obtain ⟨node, -, h⟩ := Option.bind_eq_some_iff.mp h
      rcases m.updateTokenQuota_cases node with
        ⟨-, heq⟩ | ⟨-, tokens, rfl, ⟨-, heq⟩ | ⟨-, heq⟩⟩ <;> simp only [heq] at h
      · exact ih h
      · have hRest := ih h
        exact hRest
      · obtain rfl := Option.some.inj h
        exact ⟨rfl, rfl⟩

/-- **Every section acts on the nodes by their own calls.** -/
theorem section_called {a : DispSection Id} (hp : m.Placed minUnits) (h : m.SectionStep a m') :
    m'.Placed minUnits ∧ NodesCalled m m' := by
  have hRebalance : ∀ {m m' : DispManager ops}, m.Placed minUnits →
      m.updateNodesTokenQuotaNew = some m' → m'.Placed minUnits ∧ NodesCalled m m' := by
    intro m m' hp h
    obtain ⟨apps, updateCtx, rfl, hApps⟩ := rebalance_called h
    exact hp.of_called rfl (Nat.le_refl _) hApps ⟨rfl, rfl⟩
  cases a with
  | increase cost =>
    obtain rfl := h
    exact hp.of_called rfl (Nat.le_refl _) (.refl _) ⟨rfl, rfl⟩
  | reduce cost =>
    obtain rfl := h
    refine hp.of_called rfl (Nat.le_refl _) (.refl _) ⟨rfl, ?_⟩
    show (m.tokens.tryDecrease cost).1.defaultTokenMin = m.tokens.defaultTokenMin
    unfold TokenGlobal.tryDecrease
    split <;> rfl
  | online id =>
    obtain ⟨done, h⟩ := h
    exact onlineSection_called hp h
  | offline id =>
    replace h : m.nodeOffline id = some m' := h
    unfold nodeOffline at h
    split at h
    · cases h
    · obtain rfl := Option.some.inj h
      exact hp.of_called rfl (Nat.le_refl _) (.refl _) ⟨rfl, rfl⟩
  | rcvd id a2d =>
    have hUnits := rcvdSection_units h
    rcases rcvdSection_cases h with ⟨-, rfl⟩ | ⟨ptr, node, -, hNode, hTab, hNext, hApps⟩
    · exact hp.of_called rfl (Nat.le_refl _) (.refl _) ⟨rfl, rfl⟩
    · refine hp.of_called hTab (Nat.le_of_eq hNext.symm) ?_ hUnits
      rw [hApps]
      exact .setNode hNode (.rcvd node a2d 0)
  | countClear =>
    obtain rfl := h
    exact hp.of_called rfl (Nat.le_refl _) (.refl _) ⟨rfl, rfl⟩
  | countTest =>
    obtain rfl := h
    exact hp.of_called rfl (Nat.le_refl _) (.refl _) ⟨rfl, rfl⟩
  | execute =>
    replace h : m.execute = some m' := h
    unfold DispManager.execute at h
    split at h
    · obtain rfl := Option.some.inj h
      exact hp.of_called rfl (Nat.le_refl _) (.refl _) ⟨rfl, rfl⟩
    · have hMarked : { m with isExe := true }.Placed minUnits := ⟨hp.older, hp.stored, hp.units⟩
      obtain ⟨hp', hCalled⟩ := hRebalance hMarked h
      exact ⟨hp', hCalled.stays, hCalled.joins⟩
  | rebalance => exact hRebalance hp h
  | clearWaitIncrease =>
    obtain ⟨fuel, h⟩ := h
    obtain ⟨hTab, hNext, hNodes, -⟩ := tryClearWaitIncrease_frame h
    refine hp.of_called hTab (Nat.le_of_eq hNext.symm) (.of_same hNodes) ?_
    exact tryClearWaitIncrease_units h

/-- `alloc_tokens` and `free_tokens` write to one node, and change what is in use
of it only. -/
theorem allocSection_cases {cost : ULong} (h : m.allocSection id cost = some m') :
    m' = m ∨ ∃ ptr node node', m.apps.node? ptr = some node ∧ node.CalledTo node' ∧
      node'.ptr = node.ptr ∧ node'.tokenQuota = node.tokenQuota ∧
      m' = { m with apps := m.apps.setNode node' } := by
  unfold allocSection at h
  split at h
  · exact Or.inl (Option.some.inj h).symm
  · rename_i ptr _
    obtain ⟨node, hNode, h⟩ := Option.bind_eq_some_iff.mp h
    have hTo := AppNode.CalledTo.dtnAlloc node cost 0
    refine Or.inr ⟨ptr, node, _, hNode, hTo, AppNode.ptr_core hTo, ?_, (Option.some.inj h).symm⟩
    unfold AppNode.dtnAlloc
    split <;> rfl

/-- What an app gives back is one call on its node, or is of no node any more. -/
theorem freeSection_cases {cost fenceId : ULong} (h : m.freeSection id cost fenceId = some m') :
    m' = m ∨ ∃ ptr node node', m.apps.node? ptr = some node ∧ node.CalledTo node' ∧
      node'.ptr = node.ptr ∧ node'.tokenQuota = node.tokenQuota ∧
      m' = { m with apps := m.apps.setNode node' } := by
  unfold freeSection at h
  split at h
  · exact Or.inl (Option.some.inj h).symm
  · rename_i ptr _
    obtain ⟨node, hNode, h⟩ := Option.bind_eq_some_iff.mp h
    obtain ⟨node', hFree, h⟩ := Option.bind_eq_some_iff.mp h
    have hTo := AppNode.CalledTo.dtnFree hFree
    refine Or.inr ⟨ptr, node, node', hNode, hTo, AppNode.ptr_core hTo, ?_, (Option.some.inj h).symm⟩
    unfold AppNode.dtnFree at hFree
    split at hFree
    · rw [Option.some.inj hFree]
    · split at hFree
      · rw [← Option.some.inj hFree]
      · cases hFree

/-- A write to one node by a call of its own. -/
theorem Placed.of_write (hp : m.Placed minUnits)
    (h : m' = m ∨ ∃ ptr node node', m.apps.node? ptr = some node ∧ node.CalledTo node' ∧
      node'.ptr = node.ptr ∧ node'.tokenQuota = node.tokenQuota ∧
      m' = { m with apps := m.apps.setNode node' }) : m'.Placed minUnits ∧ NodesCalled m m' := by
  rcases h with rfl | ⟨ptr, node, node', hNode, hTo, -, -, rfl⟩
  · exact hp.of_called rfl (Nat.le_refl _) (.refl _) ⟨rfl, rfl⟩
  · exact hp.of_called rfl (Nat.le_refl _) (.setNode hNode hTo) ⟨rfl, rfl⟩

end DispManager

end DatastorQos
