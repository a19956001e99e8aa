import DatastorQos.Dispatcher.AppNodes

/-!
# token_update — a rebalance

The model of `sysqos_token_update.c`. A rebalance collects every online node
(`addResource`), pools what the nodes have, and hands it out again by weight in
two passes (`update`): first each node its share, then what is left over.

`setQuotaNewFunc` is the callback that gives a node its quota and returns what
the node accepted. Next to the state, `update` returns the nodes that it called
it for, in order.
-/

namespace DatastorQos

/-- `token_update_ctx_t`; `lheadUpdateNode` is the list, in order. -/
structure TokenUpdateCtx where
  totalWeight     : ULong
  tokenTotal      : ULong
  tokenStatic     : ULong
  lheadUpdateNode : List AppNodePtr
  deriving DecidableEq, Repr

/-- `set_quota_new_func`. -/
abbrev SetQuotaNewFunc := AppNodes → ULong → AppNodePtr → Option (AppNodes × ULong)

/-- A write to `tmp_token_quota`. -/
def AppNode.setTmpTokenQuota (node : AppNode) (quota : ULong) : AppNode :=
  { node with updatenode := { node.updatenode with tmpTokenQuota := quota } }

namespace TokenUpdateCtx

/-- `token_update_ctx_init`. -/
def init : TokenUpdateCtx where
  totalWeight     := 0
  tokenTotal      := 0
  tokenStatic     := 0
  lheadUpdateNode := []

/-- `insert_by_weight`. -/
def insertByWeight (ctx : TokenUpdateCtx) (node : AppNode) : TokenUpdateCtx :=
  { ctx with
    lheadUpdateNode := node.ptr :: ctx.lheadUpdateNode
    totalWeight     := ctx.totalWeight + node.updatenode.weight }

/-- `add_resource`. What it subtracts from `tmp_token_quota` at the end is the
0 that unlocking returns. -/
def addResource (ctx : TokenUpdateCtx) (s : AppNodes) (ptr : AppNodePtr) :
    Option (TokenUpdateCtx × AppNodes) := do
  let node ← s.node? ptr
  let node := node.initUpdateNode
  let ctx := ctx.insertByWeight node
  return ({ ctx with
    tokenTotal  := ctx.tokenTotal + node.updatenode.tmpTokenQuota
    tokenStatic := ctx.tokenStatic + node.updatenode.tokenBase }, s.setNode node)

/-- `update_token_left_base`. -/
def updateTokenLeftBase (ctx : TokenUpdateCtx) : ULong := ctx.tokenTotal - ctx.tokenStatic

/-- `update_weight`. -/
def updateWeight (ctx : TokenUpdateCtx) : ULong := ctx.totalWeight

/-- `update_node_quota`: what the node consumed; `none` is `assert(total_weight
> 0)` failing, or the callback. -/
def updateNodeQuota (setQuotaNew : SetQuotaNewFunc) (tokenTotal totalWeight : ULong) (s : AppNodes)
    (pos : AppNodePtr) : Option (AppNodes × ULong) := do
  let node ← s.node? pos
  if totalWeight > 0 then
    let quota := tokenTotal * node.updatenode.weight / totalWeight + node.updatenode.tokenBase
    let (s, newRealQuota) ← setQuotaNew (s.setNode (node.setTmpTokenQuota quota)) quota pos
    return (s, newRealQuota - node.updatenode.tokenBase)
  else none

/-- `update_node_quota_left`. -/
def updateNodeQuotaLeft (setQuotaNew : SetQuotaNewFunc) (tokenLeft : ULong) (s : AppNodes)
    (pos : AppNodePtr) : Option (AppNodes × ULong) := do
  let node ← s.node? pos
  let oldQuota := node.updatenode.tmpTokenQuota
  let quota := oldQuota + tokenLeft
  let (s, newRealQuota) ← setQuotaNew (s.setNode (node.setTmpTokenQuota quota)) quota pos
  return (s, newRealQuota - oldQuota)

/-- Both `list_for_each` loops of `update`: what a node consumes is gone, and
the loop ends with the tokens. -/
def spend (updateNode : AppNodes → ULong → AppNodePtr → Option (AppNodes × ULong)) :
    List AppNodePtr → ULong → AppNodes → Option (AppNodes × ULong × List AppNodePtr)
  | [], tokenLeft, s => some (s, tokenLeft, [])
  | pos :: rest, tokenLeft, s => do
    let (s, used) ← updateNode s tokenLeft pos
    -- `token_left <= 0`, of an unsigned number
    if tokenLeft - used = 0 then
      return (s, tokenLeft - used, [pos])
    else
      let (s, tokenLeft, visited) ← spend updateNode rest (tokenLeft - used) s
      return (s, tokenLeft, pos :: visited)

/-- `update`, which leaves the context as `clear` does. -/
def update (ctx : TokenUpdateCtx) (s : AppNodes) (setQuotaNew : SetQuotaNewFunc) :
    Option (TokenUpdateCtx × AppNodes × List AppNodePtr) := do
  let tokenTotal := ctx.updateTokenLeftBase
  let totalWeight := ctx.updateWeight
  let (s, tokenLeft, visited) ←
    spend (fun s _ pos => updateNodeQuota setQuotaNew tokenTotal totalWeight s pos)
      ctx.lheadUpdateNode tokenTotal s
  let (s, _, visited') ←
    spend (fun s tokenLeft pos => updateNodeQuotaLeft setQuotaNew tokenLeft s pos)
      ctx.lheadUpdateNode tokenLeft s
  return (init, s, visited ++ visited')

/-- `add_rs_to_upctx`, for each of `ptrs`. -/
def addResources (ctx : TokenUpdateCtx) (s : AppNodes) :
    List AppNodePtr → Option (TokenUpdateCtx × AppNodes)
  | [] => some (ctx, s)
  | ptr :: ptrs => do
    let (ctx, s) ← ctx.addResource s ptr
    ctx.addResources s ptrs

-- ---------------------------------------------------------------------------
-- What a rebalance collects
-- ---------------------------------------------------------------------------

variable {ctx : TokenUpdateCtx} {s : AppNodes} {ns : List AppNode}

/-- `token_base`, once the node is collected. -/
def baseOf (n : AppNode) : ULong := ULong.cmin n.limit.min n.tokenQuota

/-- The context after the nodes were collected: the last of them comes first. -/
def collected (ctx : TokenUpdateCtx) (ns : List AppNode) : TokenUpdateCtx where
  totalWeight     := ctx.totalWeight + (ns.map AppNode.press).sum
  tokenTotal      := ctx.tokenTotal + (ns.map fun n => n.tokenQuota - baseOf n).sum
  tokenStatic     := ctx.tokenStatic + (ns.map baseOf).sum
  lheadUpdateNode := (ns.map AppNode.ptr).reverse ++ ctx.lheadUpdateNode

theorem addResource_eq {n : AppNode} (hn : s.node? n.ptr = some n) :
    ctx.addResource s n.ptr = some (ctx.collected [n], s.setNode n.initUpdateNode) := by
  unfold addResource
  rw [hn]
  simp [collected, insertByWeight, baseOf, AppNode.initUpdateNode, UpdateNode.init]

/-- Collecting never fails, and prepares each node for the update. -/
theorem addResources_eq (ctx : TokenUpdateCtx) (s : AppNodes)
    (hFound : ∀ n ∈ ns, s.node? n.ptr = some n) (hApart : (ns.map AppNode.ptr).Nodup) :
    ∃ s', ctx.addResources s (ns.map AppNode.ptr) = some (ctx.collected ns, s') ∧
      (∀ n ∈ ns, s'.node? n.ptr = some n.initUpdateNode) ∧
      ∀ x, x ∉ ns.map AppNode.ptr → s'.node? x = s.node? x := by
  induction ns generalizing ctx s with
  | nil => exact ⟨s, by simp [addResources, collected], by simp, by simp⟩
  | cons n ns ih =>
    obtain ⟨hNot, hApart⟩ := List.nodup_cons.mp hApart
    have hn := hFound n List.mem_cons_self
    have hLook : ∀ x, (s.setNode n.initUpdateNode).node? x =
        if x = n.ptr then some n.initUpdateNode else s.node? x :=
      fun x => AppNodes.node?_setNode n.initUpdateNode (Option.isSome_of_eq_some hn)
    have hFound' : ∀ n' ∈ ns, (s.setNode n.initUpdateNode).node? n'.ptr = some n' := by
      intro n' hn'
      have hne : n'.ptr ≠ n.ptr := fun heq => hNot (heq ▸ List.mem_map_of_mem hn')
      rw [hLook, if_neg hne]
      exact hFound n' (List.mem_cons_of_mem _ hn')
    obtain ⟨s', hRest, hNodes, hOther⟩ := ih (ctx.collected [n]) _ hFound' hApart
    refine ⟨s', ?_, fun n' hn' => ?_, fun x hx => ?_⟩
    · rw [List.map_cons, addResources, addResource_eq hn]
      simp only [Option.bind_eq_bind, Option.bind_some, hRest]
      simp [collected, add_assoc]
    · rcases List.mem_cons.mp hn' with rfl | hn'
      · rw [hOther _ hNot, hLook, if_pos rfl]
      · exact hNodes n' hn'
    · rw [List.map_cons, List.mem_cons, not_or] at hx
      rw [hOther x hx.2, hLook, if_neg hx.1]

end TokenUpdateCtx

end DatastorQos
