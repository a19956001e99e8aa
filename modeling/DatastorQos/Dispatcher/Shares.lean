import DatastorQos.Dispatcher.Rebalance

/-!
# datastor_qos — what each node is promised

A rebalance should promise each node its minimum and its share of the pool, and
the first node what is left of the pool as well. The first pass ends as soon as
nothing is left, and whoever comes after that keeps the promise of the rebalance
before.

* `shares_assigned_iff` — every node has its share exactly if the numbers fit
  and the nodes after an early end already have theirs;
* `idle_node_keeps_target` — a node without pressure, behind one that takes all.
-/

namespace DatastorQos

open Apportion TokenUpdateCtx AppNodes

variable {s s' : AppNodes} {n : AppNode} {ns : List AppNode} {tokenTotal totalWeight : ULong}
  {ctx ctx' : TokenUpdateCtx} {assigned : List AppNodePtr}

/-- Collected nodes in the context, with a total weight above 0 and products that
fit in one word. -/
structure Weighed (ctx : TokenUpdateCtx) (s : AppNodes) (ns : List AppNode) : Prop
    extends Collected s ns where
  lead     : ctx.lheadUpdateNode = ns.map AppNode.ptr
  base     : ∀ n ∈ ns, n.updatenode.tokenBase = n.limit.min
  positive : 0 < ctx.updateWeight.toNat
  products : ∀ n ∈ ns, ctx.updateTokenLeftBase.toNat * n.updatenode.weight.toNat < 2 ^ 64

/-- The pool, as a number. -/
def TokenUpdateCtx.pool (ctx : TokenUpdateCtx) : ℕ := ctx.updateTokenLeftBase.toNat

/-- The share of a node, rounded down. -/
def TokenUpdateCtx.floorOf (ctx : TokenUpdateCtx) (n : AppNode) : ℕ :=
  share ctx.pool n.updatenode.weight.toNat ctx.updateWeight.toNat

/-- The floors of several nodes. -/
def TokenUpdateCtx.floors (ctx : TokenUpdateCtx) (ns : List AppNode) : ℕ := (ns.map ctx.floorOf).sum

/-- The update returns, each node has its minimum and its share, and the first
one what is left of the pool as well. -/
def SharesAssigned (ctx : TokenUpdateCtx) (s : AppNodes) (n : AppNode) (ns : List AppNode) : Prop :=
  ∃ ctx' s' assigned, ctx.update s setQuotaNew = some (ctx', s', assigned) ∧
    ((s'.quotaNew n.ptr).toNat : ℤ) =
      n.updatenode.tokenBase.toNat + ctx.floorOf n + (ctx.pool - ctx.floors (n :: ns)) ∧
    ∀ n' ∈ ns, (s'.quotaNew n'.ptr).toNat = n'.updatenode.tokenBase.toNat + ctx.floorOf n'

/-- The numbers fit, and an early end of the first pass cuts off no one. -/
structure SharesReach (ctx : TokenUpdateCtx) (n : AppNode) (ns : List AppNode) : Prop where
  fits  : ∀ n' ∈ n :: ns, n'.updatenode.tokenBase.toNat + ctx.floorOf n' < 2 ^ 64
  -- what is left takes the first node to no less than its minimum, and no more than one word
  first : ctx.floors (n :: ns) ≤ ctx.pool + ctx.floorOf n ∧
    n.updatenode.tokenBase.toNat + ctx.floorOf n + ctx.pool < 2 ^ 64 + ctx.floors (n :: ns)
  -- the nodes after the pool is used up have nothing to get, and their target already
  cut   : ∀ before after, n :: ns = before ++ after → before ≠ [] →
    ctx.floors before % 2 ^ 64 = ctx.pool → ∀ n' ∈ after, ctx.floors (n :: ns) = ctx.pool ∧
      n'.tokenQuotaNew.toNat = n'.updatenode.tokenBase.toNat + ctx.floorOf n'

-- ---------------------------------------------------------------------------
-- Where the first pass ends
-- ---------------------------------------------------------------------------

/-- The first pass does not go on once nothing is left. -/
theorem firstPass_stops {tokenLeft tokenLeft' : ULong} {visited : List AppNodePtr}
    {before after : List AppNode} (hc : Collected s (before ++ after))
    (h : spend (firstPass tokenTotal totalWeight) ((before ++ after).map AppNode.ptr) tokenLeft s =
      some (s', tokenLeft', visited))
    (hBefore : before ≠ [])
    (hSpent : tokenLeft - (before.map (AppNode.newShare tokenTotal totalWeight)).sum = 0) :
    ∀ n' ∈ after, n'.ptr ∉ visited := by
  rw [spend_eq_spendTurns] at h
  obtain ⟨⟨s₁, left, turns⟩, hTurns, heq⟩ := Option.map_eq_some_iff.mp h
  obtain ⟨rfl, rfl, rfl⟩ := by simpa only [Prod.mk.injEq] using heq
  obtain ⟨seen, hPass⟩ := FirstPass.of_spends hc.placed (spends_of_spendTurns hTurns)
  rw [← hc.map_takes (List.subset_append_left before after)] at hSpent
  have hSeen : seen <+: before := by
    rcases List.prefix_or_prefix_of_prefix hPass.first (List.prefix_append before after) with
      hSeen | hMore
    · exact hSeen
    · -- had it gone on, something would have been left behind `before`
      by_cases hAll : before = seen
      · rw [hAll]
      · exact absurd hSpent (hPass.unspent before hMore hBefore hAll)
  intro n' hn' hMem
  rw [hPass.pos] at hMem
  have hApart := hc.apart
  rw [List.map_append, List.nodup_append] at hApart
  exact hApart.2.2 n'.ptr ((hSeen.sublist.map _).subset hMem) n'.ptr (List.mem_map_of_mem hn') rfl

/-- So the rebalance assigns nothing to those that come after. -/
theorem update_stops {before after : List AppNode} (hc : Collected s (n :: before ++ after))
    (hLead : ctx.lheadUpdateNode = (n :: before ++ after).map AppNode.ptr)
    (h : ctx.update s setQuotaNew = some (ctx', s', assigned))
    (hSpent : ctx.updateTokenLeftBase - ((n :: before).map ctx.shareOf).sum = 0) :
    ∀ n' ∈ after, n'.ptr ∉ assigned := by
  obtain ⟨s₁, tokenLeft, tokenLeft', visited, visited', hFirst, hSecond, -, rfl⟩ := update_passes h
  rw [hLead] at hFirst hSecond
  have hStops := firstPass_stops hc hFirst (List.cons_ne_nil n before) hSpent
  obtain ⟨seen, rfl, hPass⟩ := firstPass_eq hc hFirst
  obtain ⟨seen, rfl, -⟩ := hPass.starts
  obtain ⟨rfl, -⟩ :=
    secondPass_eq (hPass.assigned n List.mem_cons_self) (hc.plain n List.mem_cons_self) hSecond
  intro n' hn' hMem
  rcases List.mem_append.mp hMem with hMem | hMem
  · exact hStops n' hn' hMem
  · exact hStops n' hn' (List.mem_singleton.mp hMem ▸ List.mem_cons_self)

-- ---------------------------------------------------------------------------
-- Words and numbers
-- ---------------------------------------------------------------------------

namespace Weighed

theorem toNat_shareOf (hw : Weighed ctx s ns) (hn : n ∈ ns) :
    (ctx.shareOf n).toNat = ctx.floorOf n :=
  toNat_share (hw.products n hn)

theorem total_shareOf (hw : Weighed ctx s ns) {part : List AppNode} (hPart : part ⊆ ns) :
    total ctx.shareOf part = ctx.floors part :=
  congrArg List.sum (List.map_congr_left fun _ hn => hw.toNat_shareOf (hPart hn))

/-- The pool is used up, as words subtract. -/
theorem spent_iff (hw : Weighed ctx s ns) {part : List AppNode} (hPart : part ⊆ ns) :
    ctx.updateTokenLeftBase - (part.map ctx.shareOf).sum = 0 ↔
      ctx.floors part % 2 ^ 64 = ctx.pool := by
  rw [← hw.total_shareOf hPart, ← toNat_sum, sub_eq_zero, pool, BitVec.toNat_inj]
  exact eq_comm

/-- A quota that fits, as words add. -/
theorem toNat_quotaOf (hw : Weighed ctx s ns) (hn : n ∈ ns)
    (hFits : n.updatenode.tokenBase.toNat + ctx.floorOf n < 2 ^ 64) :
    (ctx.quotaOf n).toNat = n.updatenode.tokenBase.toNat + ctx.floorOf n := by
  have hShare := hw.toNat_shareOf hn
  rw [show ctx.quotaOf n = ctx.shareOf n + n.updatenode.tokenBase from rfl, BitVec.toNat_add, hShare]
  omega

/-- It fits exactly if it covers the minimum. -/
theorem min_le_quotaOf_iff (hw : Weighed ctx s ns) (hn : n ∈ ns) :
    n.limit.min ≤ ctx.quotaOf n ↔ n.updatenode.tokenBase.toNat + ctx.floorOf n < 2 ^ 64 := by
  have hShare := hw.toNat_shareOf hn
  have hLess := (ctx.shareOf n).isLt
  rw [← hw.base n hn, BitVec.le_def,
    show ctx.quotaOf n = ctx.shareOf n + n.updatenode.tokenBase from rfl, BitVec.toNat_add, hShare]
  omega

/-- What the first node has when the first pass got to the end. -/
theorem toNat_firstQuota (hw : Weighed ctx s (n :: ns)) (hReach : SharesReach ctx n ns) :
    (ctx.quotaOf n + (ctx.updateTokenLeftBase - ((n :: ns).map ctx.shareOf).sum)).toNat +
      ctx.floors (n :: ns) = n.updatenode.tokenBase.toNat + ctx.floorOf n + ctx.pool := by
  have hQuota := hw.toNat_quotaOf List.mem_cons_self (hReach.fits n List.mem_cons_self)
  have hSum : ((n :: ns).map ctx.shareOf).sum.toNat = ctx.floors (n :: ns) % 2 ^ 64 := by
    rw [toNat_sum, hw.total_shareOf (List.Subset.refl _)]
  have hPool : ctx.updateTokenLeftBase.toNat = ctx.pool := rfl
  have hLess := ctx.updateTokenLeftBase.isLt
  have hFirst := hReach.first
  rw [BitVec.toNat_add, BitVec.toNat_sub, hQuota, hSum]
  omega

end Weighed

/-- A pass that leaves nodes out has used up the pool. -/
theorem Pass.used_up {quota used : AppNode → ULong} {tokenLeft tokenLeft' : ULong}
    {seen after : List AppNode} (hPass : Pass s ns quota used tokenLeft s' tokenLeft' seen)
    (hAfter : seen ++ after = ns) (hn : n ∈ after) : tokenLeft' = 0 := by
  refine hPass.ended.resolve_left fun hAll => ?_
  rw [← hAfter] at hAll
  exact List.ne_nil_of_mem hn (List.self_eq_append_right.mp hAll)

/-- The nodes that are left out have been cut off. -/
theorem SharesReach.of_left_out {s₁ : AppNodes} {tokenLeft : ULong} {seen after : List AppNode}
    (hReach : SharesReach ctx n ns) (hw : Weighed ctx s (n :: ns))
    (hPass : Pass s (n :: ns) ctx.quotaOf ctx.shareOf ctx.updateTokenLeftBase s₁ tokenLeft (n :: seen))
    (hAfter : n :: seen ++ after = n :: ns) : ∀ n' ∈ after, ctx.floors (n :: ns) = ctx.pool ∧
      n'.tokenQuotaNew.toNat = n'.updatenode.tokenBase.toNat + ctx.floorOf n' := by
  intro n' hn'
  have hSpent := hPass.used_up hAfter hn'
  rw [hPass.left, hw.spent_iff hPass.first.sublist.subset] at hSpent
  exact hReach.cut _ _ hAfter.symm (List.cons_ne_nil n seen) hSpent n' hn'

/-- Where every node has its share, the shares reached everyone. -/
theorem SharesAssigned.reach (hw : Weighed ctx s (n :: ns)) (h : SharesAssigned ctx s n ns) :
    SharesReach ctx n ns := by
  obtain ⟨ctx', s', assigned, hUpdate, hFirstShare, hShares⟩ := h
  obtain ⟨seen, s₁, tokenLeft, hPass, hAssigned, hMin, hFirst, -, hOthers⟩ :=
    update_eq hw.toCollected hw.lead hUpdate
  rw [hFirst.quotaNew] at hFirstShare
  have hFirstFits := (hw.min_le_quotaOf_iff List.mem_cons_self).mp
    (hPass.min_le n List.mem_cons_self)
  constructor
  · intro n' hn'
    rcases List.mem_cons.mp hn' with rfl | hn'
    · exact hFirstFits
    · rw [← hShares n' hn']
      exact BitVec.isLt _
  · have hLess := (ctx.quotaOf n + tokenLeft).isLt
    rw [← hw.base n List.mem_cons_self, BitVec.le_def] at hMin
    constructor <;> omega
  · intro before after hSplit hBefore hSpent n' hn'
    obtain ⟨n₀, before, rfl⟩ := List.exists_cons_of_ne_nil hBefore
    obtain ⟨rfl, hRest⟩ := List.cons_eq_cons.mp hSplit
    have hw' := hw
    rw [hSplit] at hw'
    have hOff := update_stops hw'.toCollected hw'.lead hUpdate
      ((hw'.spent_iff (List.subset_append_left _ _)).mpr hSpent) n' hn'
    have hMem : n' ∈ ns := hRest ▸ List.mem_append_right before hn'
    constructor
    · -- the first pass left nothing, since it left this node out
      have hNone : tokenLeft = 0 := by
        refine hPass.ended.resolve_left fun hAll => hOff ?_
        rw [hAssigned, (List.cons.inj hAll).2]
        exact List.mem_append_left _ (List.mem_cons_of_mem _ (List.mem_map_of_mem hMem))
      rw [hNone, add_zero, hw.toNat_quotaOf List.mem_cons_self hFirstFits] at hFirstShare
      omega
    · have hKept : s'.quotaNew n'.ptr = n'.tokenQuotaNew := by
        rw [AppNodes.quotaNew, hOthers _ hOff, hw.found n' (List.mem_cons_of_mem _ hMem)]
      rw [← hKept]
      exact hShares n' hMem

/-- Shares that reach everyone are assigned. -/
theorem SharesReach.sharesAssigned (hw : Weighed ctx s (n :: ns)) (hReach : SharesReach ctx n ns) :
    SharesAssigned ctx s n ns := by
  have hQuota : ∀ n' ∈ n :: ns, (ctx.quotaOf n').toNat =
      n'.updatenode.tokenBase.toNat + ctx.floorOf n' :=
    fun n' hn' => hw.toNat_quotaOf hn' (hReach.fits n' hn')
  have hMin : ∀ n' ∈ n :: ns, n'.limit.min ≤ ctx.quotaOf n' :=
    fun n' hn' => (hw.min_le_quotaOf_iff hn').mpr (hReach.fits n' hn')
  have hFirstReach := hReach.first
  have hFirstQuota := hw.toNat_firstQuota hReach
  have hReturns : (ctx.update s setQuotaNew).isSome := by
    refine update_completes hw.toCollected hw.lead (BitVec.lt_def.mpr hw.positive) hMin ?_
    intro s₁ tokenLeft seen hPass
    rcases hPass.ended with rfl | rfl
    · rw [hPass.left, ← hw.base n List.mem_cons_self, BitVec.le_def]
      omega
    · rw [add_zero]
      exact hMin n List.mem_cons_self
  obtain ⟨⟨ctx', s', assigned⟩, hUpdate⟩ := Option.isSome_iff_exists.mp hReturns
  obtain ⟨seen, s₁, tokenLeft, hPass, hAssigned, -, hFirst, hSeen, hOthers⟩ :=
    update_eq hw.toCollected hw.lead hUpdate
  obtain ⟨after, hAfter⟩ := hPass.first
  have hCut := hReach.of_left_out hw hPass hAfter
  refine ⟨ctx', s', assigned, hUpdate, ?_, fun n' hn' => ?_⟩
  · rw [hFirst.quotaNew]
    obtain _ | ⟨x, after⟩ := after
    · rw [List.append_nil] at hAfter
      rw [hPass.left, hAfter]
      omega
    · obtain ⟨hAll, -⟩ := hCut x List.mem_cons_self
      rw [hPass.used_up hAfter List.mem_cons_self, add_zero, hQuota n List.mem_cons_self]
      omega
  · have hRest : ns = seen ++ after := (List.cons.inj hAfter).2.symm
    rcases List.mem_append.mp (hRest ▸ hn') with hIn | hOut
    · rw [(hSeen n' hIn).quotaNew]
      exact hQuota n' (List.mem_cons_of_mem _ hn')
    · have hSpent := hPass.used_up hAfter hOut
      rw [hPass.left] at hSpent
      have hw' := hw
      rw [← hAfter] at hw'
      have hOff := update_stops hw'.toCollected hw'.lead hUpdate hSpent n' hOut
      rw [AppNodes.quotaNew, hOthers _ hOff, hw.found n' (List.mem_cons_of_mem _ hn')]
      exact (hCut n' hOut).2

/-- **Every node has its share** exactly if the shares reach everyone. -/
theorem shares_assigned_iff (hw : Weighed ctx s (n :: ns)) :
    SharesAssigned ctx s n ns ↔ SharesReach ctx n ns :=
  ⟨SharesAssigned.reach hw, SharesReach.sharesAssigned hw⟩

section TwoWeights

/-- A collected node with a minimum of 10 tokens, 20 more, and a weight. -/
def weighedNode (ptr : AppNodePtr) (weight : ULong) : AppNode :=
  { AppNode.init ptr 10 0 with
    updatenode    := ⟨weight, 20, 10⟩
    tokenQuota    := 30
    tokenQuotaNew := 30
    press         := weight }

/-- One of weight 1 and one of another. -/
def weighedNodes (weight : ULong) : AppNodes := ⟨[weighedNode 1 1, weighedNode 2 weight], ⟨[]⟩⟩

/-- Their pool is 20. -/
def weighedCtx (weight : ULong) : TokenUpdateCtx := ⟨1 + weight, 40, 20, [1, 2]⟩

theorem weighedNodes_weighed :
    Weighed (weighedCtx 1) (weighedNodes 1) [weighedNode 1 1, weighedNode 2 1] ∧
      Weighed (weighedCtx 0) (weighedNodes 0) [weighedNode 1 1, weighedNode 2 0] := by
  refine ⟨⟨⟨?_, ?_, ?_⟩, ?_, ?_, ?_, ?_⟩, ⟨⟨?_, ?_, ?_⟩, ?_, ?_, ?_, ?_⟩⟩ <;> decide

/-- Equal weights get 10 each. -/
theorem shares_assigned_equal_weights :
    SharesAssigned (weighedCtx 1) (weighedNodes 1) (weighedNode 1 1) [weighedNode 2 1] := by
  refine (shares_assigned_iff weighedNodes_weighed.1).mpr ⟨by decide, by decide, ?_⟩
  intro before after hSplit hBefore hSpent
  obtain _ | ⟨n₁, _ | ⟨n₂, before⟩⟩ := before
  · exact absurd rfl hBefore
  · -- the first node leaves 10
    obtain ⟨rfl, -⟩ := List.cons_eq_cons.mp hSplit
    exact absurd hSpent (by decide)
  · obtain rfl : after = [] := by
      have hLength := congrArg List.length hSplit
      rw [← List.length_eq_zero_iff]
      simp only [List.length_cons, List.length_append, List.length_nil] at hLength
      omega
    simp

/-- Node 2 has no weight, and keeps its old 30. -/
theorem idle_node_keeps_target :
    ¬ ∀ (ctx : TokenUpdateCtx) (s : AppNodes) (n : AppNode) (ns : List AppNode),
      Weighed ctx s (n :: ns) → SharesAssigned ctx s n ns := by
  intro hAlways
  obtain ⟨ctx', s', assigned, hUpdate, -, hShares⟩ := hAlways _ _ _ _ weighedNodes_weighed.2
  have hKept : ((weighedCtx 0).update (weighedNodes 0) setQuotaNew).map
      (fun res => (res.2.1.quotaNew 2).toNat) = some 30 := by decide
  rw [hUpdate] at hKept
  have hShare := hShares (weighedNode 2 0) List.mem_cons_self
  rw [show (s'.quotaNew (weighedNode 2 0).ptr).toNat = 30 from Option.some.inj hKept] at hShare
  revert hShare
  decide

end TwoWeights

end DatastorQos
