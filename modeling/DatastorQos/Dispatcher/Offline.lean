import DatastorQos.Dispatcher.Conservation

/-!
# datastor_qos — taking an app offline

`node_offline` step by step, with the `void **` through which the table's
`erase` is to hand back the node. `node_offline` passes `node_val` itself, which
is `NULL`, where `node_online` passes the address of its variable; so nothing is
handed back, and the wait-increase list asserts a node.

* `offlineWith_null` — the steps come to `DispManager.nodeOffline`;
* `offlineSection_removes` — with the address of `node_val`, the steps up to
  `update_policy` would remove the node everywhere;
* `offline_removes_iff` — as it is, the call does what it should exactly for
  ids that are not online.
-/

namespace DatastorQos

variable {Id : Type} {ops : IdOps Id}

/-- What is passed for a `void **pri`. -/
inductive PriArg where
  | null
  /-- the address of the caller's variable -/
  | address
  deriving DecidableEq, Repr

/-- `herase` as its callers see it: the table, what it returns, and the caller's
variable, which holds `nodeVal` before. -/
def HashTable.eraseInto (t : HashTable ops AppNodePtr) (id : Id) (pri : PriArg)
    (nodeVal : Option AppNodePtr) : HashTable ops AppNodePtr × TableError × Option AppNodePtr :=
  match t.erase id with
  | (t, some node) => (t, .ok, if pri = .address then some node else nodeVal)
  | (t, none) => (t, .notfound, nodeVal)

namespace DispManager

variable {m m' : DispManager ops} {id : Id} {pri : PriArg} {fuel : Nat}

/-- `check_erase_from_alloc_item`, which asserts that there is a node. -/
def checkEraseFromAllocItem (m : DispManager ops) (node : Option AppNodePtr) :
    Option (DispManager ops × AppNodePtr) := do
  let node ← node
  return (m.waitIncreaseErase node, node)

/-- `node_offline` up to `update_policy`, which follows if the node was there. -/
def offlineSection (pri : PriArg) (m : DispManager ops) (id : Id) :
    Option (DispManager ops × Bool) :=
  match m.tab.eraseInto id pri none with
  | (tab, .ok, nodeVal) => do
    let (m, ptr) ← { m with tab := tab }.checkEraseFromAllocItem nodeVal
    let node ← m.apps.node? ptr
    let (tokens, node) ← m.tokens.offline node
    return ({ m with
      tokens         := tokens
      apps           := m.apps.setNode node
      tokenNodeCache := m.tokenNodeCache.free }, true)
  | (_, _, _) => some (m, false)

/-- `node_offline`, with what it passes to `erase` left open. -/
def offlineWith (pri : PriArg) (fuel : Nat) (m : DispManager ops) (id : Id) :
    Option (DispManager ops) := do
  match ← m.offlineSection pri id with
  | (m, true) => m.updatePolicy fuel true
  | (m, false) => some m

/-- `node_offline` passes `node_val`, which is `NULL`. -/
theorem offlineWith_null (fuel : Nat) (m : DispManager ops) (id : Id) :
    m.offlineWith .null fuel id = m.nodeOffline id := by
  unfold offlineWith offlineSection nodeOffline HashTable.eraseInto
  cases hErase : m.tab.erase id with
  | mk tab found =>
    cases found with
    | some ptr => simp [checkEraseFromAllocItem]
    | none => simp

/-- The node `ptr` of `id` is gone everywhere, and nothing else is. -/
structure Removed (m m' : DispManager ops) (id : Id) (ptr : AppNodePtr) : Prop where
  notInTable : m'.tab.find id = none
  notOnList  : ptr ∉ m'.apps.lheadWaitIncrease.head
  inCache    : m'.tokenNodeCache = m.tokenNodeCache.free
  oneLess    : m'.tokens.appNumCur = m.tokens.appNumCur - 1
  -- the pool may serve others with what it got
  offline    : ∃ node tokens node', m.apps.node? ptr = some node ∧
    m.tokens.offline node = some (tokens, node') ∧
    { m'.tokens with tokenFree := tokens.tokenFree } = tokens
  others     : ∀ x, ¬ ops.Same id x → m'.tab.find x = m.tab.find x

/-- `node_offline` completes, for some number of rounds of the serving loop, and
removes the node of the id everywhere; without one it changes nothing. -/
def OfflineRemoves (m : DispManager ops) (id : Id) : Prop :=
  ∃ fuel m', m.offlineWith .null fuel id = some m' ∧
    match m.tab.find id with
    | some ptr => Removed m m' id ptr
    | none => m' = m

end DispManager

theorem TokenGlobal.offline_appNumCur {tokens tokens' : TokenGlobal} {node node' : AppNode}
    (h : tokens.offline node = some (tokens', node')) :
    tokens'.appNumCur = tokens.appNumCur - 1 := by
  unfold offline at h
  split at h
  · obtain ⟨⟨tokens₁, node₁⟩, hDynamic, h⟩ := Option.bind_eq_some_iff.mp h
    obtain ⟨rfl, -⟩ := Prod.mk.inj (Option.some.inj h)
    unfold freeToDynamic at hDynamic
    simp only at hDynamic
    split at hDynamic
    · obtain ⟨rfl, -⟩ := Prod.mk.inj (Option.some.inj hDynamic)
      rfl
    · cases hDynamic
  · cases h

namespace DispManager

variable {m m' : DispManager ops} {id : Id}

/-- The other links of `node_offline` hold: were `erase` given the address of
`node_val`, the node would be gone everywhere when `update_policy` is called. -/
theorem offlineSection_removes {ptr : AppNodePtr} (hFind : m.tab.find id = some ptr)
    (h : m.offlineSection .address id = some (m', true)) : Removed m m' id ptr := by
  have hErase : m.tab.erase id = ((m.tab.erase id).1, some ptr) :=
    Prod.ext rfl (HashTable.erase_snd.trans hFind)
  unfold offlineSection HashTable.eraseInto at h
  rw [hErase] at h
  simp only [if_true] at h
  obtain ⟨⟨m₁, ptr₁⟩, hList, h⟩ := Option.bind_eq_some_iff.mp h
  obtain ⟨rfl, rfl⟩ := Prod.mk.inj (Option.some.inj hList)
  obtain ⟨node, hNode, h⟩ := Option.bind_eq_some_iff.mp h
  obtain ⟨⟨tokens, node'⟩, hOffline, h⟩ := Option.bind_eq_some_iff.mp h
  obtain ⟨rfl, -⟩ := Prod.mk.inj (Option.some.inj h)
  refine ⟨?_, ?_, rfl, TokenGlobal.offline_appNumCur hOffline, ?_, fun x hx => ?_⟩
  · exact HashTable.find_erase.trans (if_pos (ops.same_refl id))
  · exact fun hMem => (WaitIncreaseList.mem_erase.mp hMem).2 rfl
  · exact ⟨node, tokens, node', hNode, hOffline, rfl⟩
  · exact HashTable.find_erase.trans (if_neg hx)

/-- **Only who is not online goes offline**: `node_offline` completes and removes
the node of the id everywhere, or leaves the dispatcher alone if there is none,
exactly for ids that are not online. -/
theorem offline_removes_iff (m : DispManager ops) (id : Id) :
    m.OfflineRemoves id ↔ m.tab.find id = none := by
  unfold OfflineRemoves
  simp only [offlineWith_null]
  unfold nodeOffline
  rw [show m.tab.erase id = ((m.tab.erase id).1, m.tab.find id) from
    Prod.ext rfl HashTable.erase_snd]
  cases hFind : m.tab.find id with
  | some ptr => simp
  | none => simp

/-- The one app of a dispatcher does not go offline. -/
theorem one_app_stays : ¬ ∀ (m : DispManager IdOps.nat) (id : Nat), m.OfflineRemoves id := by
  intro h
  obtain ⟨fuel, m', hOffline, -⟩ := h withOneApp 1
  rw [offlineWith_null] at hOffline
  have hNone : withOneApp.nodeOffline 1 = none := by decide
  rw [hNone] at hOffline
  cases hOffline

end DispManager

end DatastorQos
