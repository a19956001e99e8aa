import DatastorQos.Dispatcher.Passes

/-!
# datastor_qos — what a rebalance hands out

* `InContext.handedOut_eq` — the pool, and the minimum of every node assigned;
* `rebalance_within_iff` — that is no more than the nodes had exactly if their
  minima make up at most half of their quotas: the pool is what the nodes have
  beyond their minima, and the minima are subtracted from it once more. (The
  weights, all together, have to fit in one word.)

Both passes are followed node by node (`firstPass_eq`, `secondPass_eq`): the
first gives each node its share until nothing is left, the second gives the
first node the rest.
-/

namespace DatastorQos

open Apportion TokenUpdateCtx AppNodes

/-- The node as a rebalance leaves it. -/
def AppNode.given (n : AppNode) (quota : ULong) (version : Int) : AppNode :=
  { n with
    updatenode    := { n.updatenode with tmpTokenQuota := quota }
    tokenQuotaNew := quota
    version       := version }

/-- The node was given the quota. -/
def AssignedTo (s : AppNodes) (n : AppNode) (quota : ULong) : Prop :=
  ∃ version, s.node? n.ptr = some (n.given quota version)

/-- Nodes without a limit, at their addresses. -/
structure Collected (s : AppNodes) (ns : List AppNode) : Prop where
  found : ∀ n ∈ ns, s.node? n.ptr = some n
  apart : (ns.map AppNode.ptr).Nodup
  plain : ∀ n ∈ ns, n.limit.max = 0

variable {s s' : AppNodes} {n : AppNode} {ns : List AppNode} {tokenTotal totalWeight : ULong}

theorem Collected.placed (hc : Collected s ns) : Placed s ns := ⟨hc.found, hc.apart⟩

/-- Without a limit, what a node is offered is what it is given, -/
theorem offered_iff_assignedTo {quota : ULong} (hMax : n.limit.max = 0) :
    Offered s n quota ↔ AssignedTo s n quota := by
  unfold Offered AssignedTo AppNode.offered AppNode.given
  rw [AppNode.newQuotaUnderLimit_uncapped hMax]

/-- and its minimum is all it has to cover. -/
theorem covers_iff {quota : ULong} (hMax : n.limit.max = 0) :
    n.Covers quota ↔ n.limit.min ≤ quota := by
  unfold AppNode.Covers
  rw [AppNode.newQuotaUnderLimit_uncapped hMax, and_self]

theorem takes_eq_newShare (hMax : n.limit.max = 0) :
    n.takes tokenTotal totalWeight = n.newShare tokenTotal totalWeight := by
  rw [AppNode.takes, AppNode.newQuotaUnderLimit_uncapped hMax]
  exact BitVec.add_sub_cancel _ _

theorem Collected.map_takes (hc : Collected s ns) {part : List AppNode} (hPart : part ⊆ ns) :
    part.map (AppNode.takes tokenTotal totalWeight) =
      part.map (AppNode.newShare tokenTotal totalWeight) :=
  List.map_congr_left fun n hn => takes_eq_newShare (hc.plain n (hPart hn))

/-- How far a pass got: the nodes `seen` have their quotas, and either that was
all of them or nothing is left. -/
structure Pass (s : AppNodes) (ns : List AppNode) (quota used : AppNode → ULong)
    (tokenLeft : ULong) (s' : AppNodes) (tokenLeft' : ULong) (seen : List AppNode) : Prop where
  first    : seen <+: ns
  some_    : ns ≠ [] → seen ≠ []
  ended    : seen = ns ∨ tokenLeft' = 0
  min_le   : ∀ n ∈ seen, n.limit.min ≤ quota n
  assigned : ∀ n ∈ seen, AssignedTo s' n (quota n)
  others   : ∀ x, x ∉ seen.map AppNode.ptr → s'.node? x = s.node? x
  left     : tokenLeft' = tokenLeft - (seen.map used).sum

theorem Pass.starts {quota used : AppNode → ULong} {tokenLeft tokenLeft' : ULong}
    {seen : List AppNode} (hPass : Pass s (n :: ns) quota used tokenLeft s' tokenLeft' seen) :
    ∃ rest, seen = n :: rest ∧ rest <+: ns :=
  (List.prefix_cons_iff.mp hPass.first).resolve_left (hPass.some_ (List.cons_ne_nil n ns))

/-- The turns of the first pass, without limits. -/
theorem Pass.of_firstPass {tokenLeft tokenLeft' : ULong} {turns : List Turn} {seen : List AppNode}
    (hc : Collected s ns)
    (h : Spends (firstPass tokenTotal totalWeight) (ns.map AppNode.ptr) tokenLeft s turns
      tokenLeft' s')
    (hPass : FirstPass tokenTotal totalWeight tokenLeft s ns turns tokenLeft' s' seen) :
    Pass s ns (AppNode.newQuota tokenTotal totalWeight) (AppNode.newShare tokenTotal totalWeight)
      tokenLeft s' tokenLeft' seen := by
  have hPlain : ∀ n ∈ seen, n.limit.max = 0 :=
    fun n hn => hc.plain n (hPass.first.sublist.subset hn)
  exact {
    first    := hPass.first
    some_    := hPass.some_
    ended    := hPass.ended
    min_le   := fun n hn => (hPass.covers n hn).1
    assigned := fun n hn => (offered_iff_assignedTo (hPlain n hn)).mp (hPass.offered n hn)
    others   := hPass.others
    left     := by rw [h.left_eq, hPass.used, hc.map_takes hPass.first.sublist.subset] }

/-- The first pass. -/
theorem firstPass_eq {tokenLeft tokenLeft' : ULong} {visited : List AppNodePtr}
    (hc : Collected s ns)
    (h : spend (firstPass tokenTotal totalWeight) (ns.map AppNode.ptr) tokenLeft s =
      some (s', tokenLeft', visited)) :
    ∃ seen, visited = seen.map AppNode.ptr ∧
      Pass s ns (AppNode.newQuota tokenTotal totalWeight) (AppNode.newShare tokenTotal totalWeight)
        tokenLeft s' tokenLeft' seen := by
  rw [spend_eq_spendTurns] at h
  obtain ⟨⟨s₁, left, turns⟩, hTurns, heq⟩ := Option.map_eq_some_iff.mp h
  obtain ⟨rfl, rfl, rfl⟩ := by simpa only [Prod.mk.injEq] using heq
  have hSpends := spends_of_spendTurns hTurns
  obtain ⟨seen, hPass⟩ := FirstPass.of_spends hc.placed hSpends
  exact ⟨seen, hPass.pos, .of_firstPass hc hSpends hPass⟩

/-- Every node visited is served if each new quota covers its minimum. -/
theorem firstPass_completes (tokenLeft : ULong) (hc : Collected s ns) (hWeight : totalWeight > 0)
    (hMin : ∀ n ∈ ns, n.limit.min ≤ n.newQuota tokenTotal totalWeight) :
    (spend (firstPass tokenTotal totalWeight) (ns.map AppNode.ptr) tokenLeft s).isSome := by
  rw [spend_eq_spendTurns, Option.isSome_map, firstPass_isSome_iff hc.placed]
  intro before n hPrefix _
  have hn : n ∈ ns := hPrefix.sublist.subset (by simp)
  exact ⟨hWeight, (covers_iff (hc.plain n hn)).mpr (hMin n hn)⟩

/-- The second pass gives the first node all that is left. -/
theorem secondPass_eq {quota tokenLeft tokenLeft' : ULong} {visited : List AppNodePtr}
    {rest : List AppNodePtr} (hn : AssignedTo s n quota) (hMax : n.limit.max = 0)
    (h : spend secondPass (n.ptr :: rest) tokenLeft s = some (s', tokenLeft', visited)) :
    visited = [n.ptr] ∧ n.limit.min ≤ quota + tokenLeft ∧ AssignedTo s' n (quota + tokenLeft) ∧
      ∀ x, x ≠ n.ptr → s'.node? x = s.node? x := by
  rw [spend_eq_spendTurns] at h
  obtain ⟨⟨s₁, left, turns⟩, hTurns, heq⟩ := Option.map_eq_some_iff.mp h
  obtain ⟨rfl, rfl, rfl⟩ := by simpa only [Prod.mk.injEq] using heq
  obtain ⟨rfl, -, hCovers, hOffered, hOther⟩ :=
    secondPass_whole ((offered_iff_assignedTo hMax).mpr hn)
      (AppNode.newQuotaUnderLimit_uncapped hMax _) (spends_of_spendTurns hTurns)
  exact ⟨rfl, hCovers.1, (offered_iff_assignedTo hMax).mp hOffered, hOther⟩

theorem secondPass_completes {quota tokenLeft : ULong} {rest : List AppNodePtr}
    (hn : AssignedTo s n quota) (hMax : n.limit.max = 0) (hMin : n.limit.min ≤ quota + tokenLeft) :
    (spend secondPass (n.ptr :: rest) tokenLeft s).isSome := by
  rw [spend_eq_spendTurns, Option.isSome_map,
    secondPass_isSome_iff ((offered_iff_assignedTo hMax).mpr hn) hMax]
  exact hMin

theorem AssignedTo.quotaNew {quota : ULong} (h : AssignedTo s n quota) :
    s.quotaNew n.ptr = quota := by
  obtain ⟨version, hn⟩ := h
  rw [AppNodes.quotaNew, hn]
  rfl

/-- What a rebalance has given out: the new quotas of the nodes it assigned. -/
def handedOut (s : AppNodes) (assigned : List AppNodePtr) (ns : List AppNode) : ℕ :=
  total (fun n : AppNode => s.quotaNew n.ptr) (ns.filter fun n => n.ptr ∈ assigned)

/-- The share of a node in the first pass of a rebalance, -/
def TokenUpdateCtx.shareOf (ctx : TokenUpdateCtx) : AppNode → ULong :=
  AppNode.newShare ctx.updateTokenLeftBase ctx.updateWeight

/-- and its quota after it. -/
def TokenUpdateCtx.quotaOf (ctx : TokenUpdateCtx) : AppNode → ULong :=
  AppNode.newQuota ctx.updateTokenLeftBase ctx.updateWeight

/-- The two passes of a rebalance. -/
theorem update_passes {ctx ctx' : TokenUpdateCtx} {assigned : List AppNodePtr}
    (h : ctx.update s setQuotaNew = some (ctx', s', assigned)) :
    ∃ s₁ tokenLeft tokenLeft' visited visited',
      spend (firstPass ctx.updateTokenLeftBase ctx.updateWeight) ctx.lheadUpdateNode
        ctx.updateTokenLeftBase s = some (s₁, tokenLeft, visited) ∧
      spend secondPass ctx.lheadUpdateNode tokenLeft s₁ = some (s', tokenLeft', visited') ∧
      ctx' = TokenUpdateCtx.init ∧ assigned = visited ++ visited' := by
  unfold update at h
  obtain ⟨⟨s₁, tokenLeft, visited⟩, hFirst, h⟩ := Option.bind_eq_some_iff.mp h
  obtain ⟨⟨s₂, tokenLeft', visited'⟩, hSecond, h⟩ := Option.bind_eq_some_iff.mp h
  simp only [Option.pure_def, Option.some.injEq, Prod.mk.injEq] at h
  obtain ⟨rfl, rfl, rfl⟩ := h
  exact ⟨s₁, tokenLeft, tokenLeft', visited, visited', hFirst, hSecond, rfl, rfl⟩

/-- A rebalance, node by node: the first one has what the first pass left. -/
theorem update_eq {ctx ctx' : TokenUpdateCtx} {assigned : List AppNodePtr}
    (hc : Collected s (n :: ns)) (hLead : ctx.lheadUpdateNode = (n :: ns).map AppNode.ptr)
    (h : ctx.update s setQuotaNew = some (ctx', s', assigned)) :
    ∃ seen s₁ tokenLeft,
      Pass s (n :: ns) ctx.quotaOf ctx.shareOf ctx.updateTokenLeftBase s₁ tokenLeft (n :: seen) ∧
      assigned = n.ptr :: seen.map AppNode.ptr ++ [n.ptr] ∧
      n.limit.min ≤ ctx.quotaOf n + tokenLeft ∧ AssignedTo s' n (ctx.quotaOf n + tokenLeft) ∧
      (∀ n' ∈ seen, AssignedTo s' n' (ctx.quotaOf n')) ∧
      ∀ x, x ∉ assigned → s'.node? x = s.node? x := by
  obtain ⟨s₁, tokenLeft, tokenLeft', visited, visited', hFirst, hSecond, -, rfl⟩ := update_passes h
  rw [hLead] at hFirst hSecond
  obtain ⟨seen, rfl, hPass⟩ := firstPass_eq hc hFirst
  obtain ⟨seen, rfl, hSeen⟩ := hPass.starts
  obtain ⟨rfl, hMin, hAssigned, hOther⟩ :=
    secondPass_eq (hPass.assigned n List.mem_cons_self) (hc.plain n List.mem_cons_self) hSecond
  refine ⟨seen, s₁, tokenLeft, hPass, rfl, hMin, hAssigned, fun n' hn' => ?_, fun x hx => ?_⟩
  · obtain ⟨version, hn₁⟩ := hPass.assigned n' (List.mem_cons_of_mem _ hn')
    have hne : n'.ptr ≠ n.ptr := fun heq =>
      (List.nodup_cons.mp hc.apart).1 (heq ▸ List.mem_map_of_mem (hSeen.sublist.subset hn'))
    exact ⟨version, (hOther _ hne).trans hn₁⟩
  · rw [List.mem_append, not_or] at hx
    have hne : x ≠ n.ptr := fun heq => hx.2 (heq ▸ List.mem_singleton_self _)
    exact (hOther x hne).trans (hPass.others x hx.1)

/-- A rebalance comes to its end if every quota covers the minimum, with what is
left for the first node and without. -/
theorem update_completes {ctx : TokenUpdateCtx} (hc : Collected s (n :: ns))
    (hLead : ctx.lheadUpdateNode = (n :: ns).map AppNode.ptr) (hWeight : ctx.updateWeight > 0)
    (hMin : ∀ n' ∈ n :: ns, n'.limit.min ≤ ctx.quotaOf n')
    (hCovers : ∀ s₁ tokenLeft seen, Pass s (n :: ns) ctx.quotaOf ctx.shareOf
      ctx.updateTokenLeftBase s₁ tokenLeft seen → n.limit.min ≤ ctx.quotaOf n + tokenLeft) :
    (ctx.update s setQuotaNew).isSome := by
  have hFirst := firstPass_completes ctx.updateTokenLeftBase hc hWeight hMin
  obtain ⟨⟨s₁, tokenLeft, visited⟩, hFirst⟩ := Option.isSome_iff_exists.mp hFirst
  obtain ⟨seen, rfl, hPass⟩ := firstPass_eq hc hFirst
  have hCovered := hCovers s₁ tokenLeft seen hPass
  obtain ⟨seen, rfl, -⟩ := hPass.starts
  have hSecond : (spend secondPass ((n :: ns).map AppNode.ptr) tokenLeft s₁).isSome :=
    secondPass_completes (hPass.assigned n List.mem_cons_self) (hc.plain n List.mem_cons_self)
      hCovered
  obtain ⟨⟨s₂, tokenLeft₂, visited₂⟩, hSecond⟩ := Option.isSome_iff_exists.mp hSecond
  simp only [update, hLead, hFirst, hSecond, Option.bind_eq_bind, Option.bind_some]
  rfl

/-- The nodes of a prefix, picked out by their addresses. -/
theorem filter_ptr_eq {seen : List AppNode} (hApart : (ns.map AppNode.ptr).Nodup)
    (hSeen : seen <+: ns) {ptrs : List AppNodePtr}
    (hPtrs : ∀ ptr, ptr ∈ ptrs ↔ ptr ∈ seen.map AppNode.ptr) :
    (ns.filter fun n => n.ptr ∈ ptrs) = seen := by
  obtain ⟨rest, rfl⟩ := hSeen
  rw [List.map_append, List.nodup_append] at hApart
  rw [List.filter_append, List.filter_eq_self.mpr, List.filter_eq_nil_iff.mpr, List.append_nil]
  · intro n hn
    rw [decide_eq_true_eq, hPtrs]
    exact fun hMem => hApart.2.2 n.ptr hMem n.ptr (List.mem_map_of_mem hn) rfl
  · intro n hn
    rw [decide_eq_true_eq, hPtrs]
    exact List.mem_map_of_mem hn

section Totals

variable {ctx ctx' : TokenUpdateCtx} {assigned : List AppNodePtr}

/-- Collected nodes in the context, with totals that are the sums they stand
for. -/
structure InContext (ctx : TokenUpdateCtx) (s : AppNodes) (ns : List AppNode) : Prop
    extends Collected s ns where
  lead     : ctx.lheadUpdateNode = ns.map AppNode.ptr
  base     : ∀ n ∈ ns, n.updatenode.tokenBase = n.limit.min
  weight   : ctx.updateWeight.toNat = total (·.updatenode.weight) ns
  positive : 0 < ctx.updateWeight.toNat
  products : ∀ n ∈ ns, ctx.updateTokenLeftBase.toNat * n.updatenode.weight.toNat < 2 ^ 64

/-- No part of the nodes has more than the pool. -/
theorem InContext.total_share_le (hc : InContext ctx s ns) {seen : List AppNode}
    (hSeen : seen.Sublist ns) : total ctx.shareOf seen ≤ ctx.updateTokenLeftBase.toNat := by
  have hShares : total ctx.shareOf seen = ((seen.map (·.updatenode.weight.toNat)).map
      (share ctx.updateTokenLeftBase.toNat · ctx.updateWeight.toNat)).sum := by
    rw [total, List.map_map]
    refine congrArg List.sum (List.map_congr_left fun n hn => ?_)
    exact toNat_share (hc.products n (hSeen.subset hn))
  rw [hShares]
  refine sum_share_le hc.positive ?_
  rw [hc.weight]
  exact total_le_of_sublist _ hSeen

/-- What the first pass leaves. -/
theorem InContext.toNat_left (hc : InContext ctx s ns) {seen : List AppNode}
    (hSeen : seen.Sublist ns) :
    (ctx.updateTokenLeftBase - (seen.map ctx.shareOf).sum).toNat + total ctx.shareOf seen =
      ctx.updateTokenLeftBase.toNat := by
  have hLe := hc.total_share_le hSeen
  have hSum : (seen.map ctx.shareOf).sum.toNat = total ctx.shareOf seen := by
    rw [toNat_sum, Nat.mod_eq_of_lt (by omega)]
  rw [BitVec.toNat_sub_of_le (by rw [BitVec.le_def, hSum]; exact hLe), hSum]
  omega

/-- Where the quota after the first pass covers the minimum, it did not wrap. -/
theorem toNat_quotaOf (hBase : n.updatenode.tokenBase = n.limit.min)
    (hMin : n.limit.min ≤ ctx.quotaOf n) :
    (ctx.quotaOf n).toNat = (ctx.shareOf n).toNat + n.limit.min.toNat := by
  rw [show ctx.quotaOf n = ctx.shareOf n + n.updatenode.tokenBase from rfl, hBase] at hMin ⊢
  bv_omega

/-- **What is handed out.** The pool, and the minimum of every node assigned. -/
theorem InContext.handedOut_eq (hc : InContext ctx s ns)
    (h : ctx.update s setQuotaNew = some (ctx', s', assigned)) :
    ∃ seen, seen <+: ns ∧ handedOut s' assigned ns =
      ctx.updateTokenLeftBase.toNat + total (·.limit.min) seen := by
  obtain _ | ⟨n, ns⟩ := ns
  · have hNone := hc.weight ▸ hc.positive
    simp at hNone
  obtain ⟨seen, s₁, tokenLeft, hPass, rfl, hMin, hFirst, hRest, -⟩ :=
    update_eq hc.toCollected hc.lead h
  refine ⟨n :: seen, hPass.first, ?_⟩
  have hSeen := hPass.first.sublist
  have hLeft := hc.toNat_left hSeen
  rw [← hPass.left, total_cons] at hLeft
  have hQuota : ∀ n' ∈ n :: seen, (ctx.quotaOf n').toNat =
      (ctx.shareOf n').toNat + n'.limit.min.toNat := fun n' hn' =>
    toNat_quotaOf (hc.base n' (hSeen.subset hn')) (hPass.min_le n' hn')
  have hFirstQuota : (ctx.quotaOf n + tokenLeft).toNat = (ctx.quotaOf n).toNat + tokenLeft.toNat := by
    have hShare := hQuota n List.mem_cons_self
    have hPool := ctx.updateTokenLeftBase.isLt
    rw [BitVec.le_def, BitVec.toNat_add] at hMin
    rw [BitVec.toNat_add]
    omega
  rw [handedOut, filter_ptr_eq hc.apart hPass.first (by simp [or_comm]), total_cons,
    hFirst.quotaNew, total_congr fun n' hn' => (hRest n' hn').quotaNew,
    total_eq_add fun n' hn' => hQuota n' (List.mem_cons_of_mem _ hn'), hFirstQuota,
    hQuota n List.mem_cons_self, total_cons]
  omega

/-- A rebalance comes to its end if the pool and the minima fit in one word. -/
theorem InContext.completes (hc : InContext ctx s ns)
    (hFit : ctx.updateTokenLeftBase.toNat + total (·.limit.min) ns < 2 ^ 64) :
    (ctx.update s setQuotaNew).isSome := by
  obtain _ | ⟨n, ns⟩ := ns
  · have hNone := hc.weight ▸ hc.positive
    simp at hNone
  have hQuota : ∀ n' ∈ n :: ns, (ctx.quotaOf n').toNat =
      (ctx.shareOf n').toNat + n'.limit.min.toNat := by
    intro n' hn'
    have hShare := hc.total_share_le (List.singleton_sublist.mpr hn')
    have hMin := le_total_of_mem (fun n : AppNode => n.limit.min) hn'
    rw [total_cons, total_nil] at hShare
    rw [show ctx.quotaOf n' = ctx.shareOf n' + n'.updatenode.tokenBase from rfl, hc.base n' hn',
      BitVec.toNat_add, Nat.mod_eq_of_lt (by omega)]
  have hMin : ∀ n' ∈ n :: ns, n'.limit.min ≤ ctx.quotaOf n' := by
    intro n' hn'
    rw [BitVec.le_def, hQuota n' hn']
    omega
  refine update_completes hc.toCollected hc.lead (BitVec.lt_def.mpr hc.positive) hMin ?_
  intro s₁ tokenLeft seen hPass
  have hLeft := hc.toNat_left hPass.first.sublist
  rw [show ctx.updateTokenLeftBase - (seen.map ctx.shareOf).sum = tokenLeft from
    hPass.left.symm] at hLeft
  obtain ⟨seen, rfl, -⟩ := hPass.starts
  have hFirstQuota := hQuota n List.mem_cons_self
  rw [total_cons] at hFit hLeft
  rw [BitVec.le_def, BitVec.toNat_add, Nat.mod_eq_of_lt (by omega)]
  omega

end Totals

-- ---------------------------------------------------------------------------
-- Handed out, and collected
-- ---------------------------------------------------------------------------

/-- What a node has beyond its minimum, as `update_node_init` sets it aside. -/
def AppNode.spare (n : AppNode) : ULong := n.tokenQuota - n.limit.min

/-- A node with its minimum has all of it as its base. -/
theorem baseOf_eq (hMin : n.limit.min ≤ n.tokenQuota) : baseOf n = n.limit.min := by
  unfold baseOf ULong.cmin
  split <;> bv_omega

/-- The pool that nodes with their minima make up is the difference of two sums of
words. -/
theorem collected_pool (hMin : ∀ n ∈ ns, n.limit.min ≤ n.tokenQuota) :
    (TokenUpdateCtx.init.collected ns).updateTokenLeftBase =
      (ns.map (·.spare)).sum - (ns.map (·.limit.min)).sum := by
  have hSpare : ns.map (fun n => n.tokenQuota - baseOf n) = ns.map (·.spare) :=
    List.map_congr_left fun n hn => by rw [baseOf_eq (hMin n hn), AppNode.spare]
  have hStatic : ns.map baseOf = ns.map (·.limit.min) :=
    List.map_congr_left fun n hn => baseOf_eq (hMin n hn)
  simp [updateTokenLeftBase, TokenUpdateCtx.collected, TokenUpdateCtx.init, hSpare, hStatic]

theorem collected_lead (ns : List AppNode) : (TokenUpdateCtx.init.collected ns).lheadUpdateNode =
    (ns.reverse.map AppNode.initUpdateNode).map AppNode.ptr := by
  simp [TokenUpdateCtx.collected, TokenUpdateCtx.init, Function.comp_def]

/-- Collected nodes are prepared, the last of them first. -/
theorem Collected.prepared (hc : Collected s ns)
    (hNodes : ∀ n ∈ ns, s'.node? n.ptr = some n.initUpdateNode) :
    Collected s' (ns.reverse.map AppNode.initUpdateNode) := by
  refine ⟨fun n₁ hn₁ => ?_, ?_, fun n₁ hn₁ => ?_⟩
  · obtain ⟨n, hn, rfl⟩ := List.mem_map.mp hn₁
    exact hNodes n (List.mem_reverse.mp hn)
  · rw [List.map_map, List.map_reverse]
    exact List.nodup_reverse.mpr hc.apart
  · obtain ⟨n, hn, rfl⟩ := List.mem_map.mp hn₁
    exact hc.plain n (List.mem_reverse.mp hn)

/-- Nodes to rebalance, with at least their minimum each, one of them with
pressure. -/
structure ToRebalance (s : AppNodes) (ns : List AppNode) : Prop extends Collected s ns where
  min_le     : ∀ n ∈ ns, n.limit.min ≤ n.tokenQuota
  weight_pos : 0 < total (·.press) ns

variable {ctx : TokenUpdateCtx} {s₁ : AppNodes}

theorem ToRebalance.total_quota (hr : ToRebalance s ns) :
    total (·.tokenQuota) ns = total (·.spare) ns + total (·.limit.min) ns := by
  refine total_eq_add fun n hn => ?_
  have hMin := hr.min_le n hn
  unfold AppNode.spare
  bv_omega

/-- The pool in numbers: the minima are subtracted once more from what is left of
the quotas. -/
theorem ToRebalance.toNat_pool (hr : ToRebalance s ns)
    (hCollect : TokenUpdateCtx.init.addResources s (ns.map AppNode.ptr) = some (ctx, s₁)) :
    ctx.updateTokenLeftBase.toNat =
      (2 ^ 64 - total (·.limit.min) ns % 2 ^ 64 + total (·.spare) ns) % 2 ^ 64 := by
  have hSpare : (ns.map AppNode.spare).sum.toNat = total (·.spare) ns % 2 ^ 64 := toNat_sum _ _
  have hMin : (ns.map fun n : AppNode => n.limit.min).sum.toNat = total (·.limit.min) ns % 2 ^ 64 :=
    toNat_sum _ _
  obtain ⟨s', hCollected, -, -⟩ := addResources_eq TokenUpdateCtx.init s hr.found hr.apart
  obtain ⟨rfl, rfl⟩ := Prod.mk.inj (Option.some.inj (hCollected.symm.trans hCollect))
  rw [collected_pool hr.min_le, BitVec.toNat_sub, hSpare, hMin, Nat.add_mod_mod]

/-- The context after the nodes were collected. -/
theorem ToRebalance.collected (hr : ToRebalance s ns) (hWeights : total (·.press) ns < 2 ^ 64)
    (hCollect : TokenUpdateCtx.init.addResources s (ns.map AppNode.ptr) = some (ctx, s₁))
    (hProducts : ∀ n ∈ ns, ctx.updateTokenLeftBase.toNat * n.press.toNat < 2 ^ 64) :
    InContext ctx s₁ (ns.reverse.map AppNode.initUpdateNode) := by
  obtain ⟨s', hCollected, hNodes, -⟩ := addResources_eq TokenUpdateCtx.init s hr.found hr.apart
  obtain ⟨rfl, rfl⟩ := Prod.mk.inj (Option.some.inj (hCollected.symm.trans hCollect))
  have hWeight : (TokenUpdateCtx.init.collected ns).updateWeight.toNat =
      total (·.updatenode.weight) (ns.reverse.map AppNode.initUpdateNode) := by
    simp only [updateWeight, TokenUpdateCtx.collected, TokenUpdateCtx.init, zero_add]
    rw [toNat_sum, Nat.mod_eq_of_lt hWeights, total_map]
    exact total_perm _ (List.reverse_perm ns).symm
  have hMem : ∀ n₁ ∈ ns.reverse.map AppNode.initUpdateNode, ∃ n ∈ ns, n.initUpdateNode = n₁ :=
    fun n₁ hn₁ => by simpa using hn₁
  refine ⟨hr.toCollected.prepared hNodes, collected_lead ns, fun n₁ hn₁ => ?_, hWeight, ?_,
    fun n₁ hn₁ => ?_⟩
  · obtain ⟨n, hn, rfl⟩ := hMem n₁ hn₁
    exact baseOf_eq (hr.min_le n hn)
  · rw [hWeight, total_map, total_perm _ (List.reverse_perm ns)]
    exact hr.weight_pos
  · obtain ⟨n, hn, rfl⟩ := hMem n₁ hn₁
    exact hProducts n hn

theorem handedOut_collected (s : AppNodes) (assigned : List AppNodePtr) (ns : List AppNode) :
    handedOut s assigned (ns.reverse.map AppNode.initUpdateNode) = handedOut s assigned ns := by
  unfold handedOut
  rw [List.filter_map, total_map]
  exact total_perm _ ((List.reverse_perm ns).filter _)

/-- What the update hands out is no more than the nodes had. -/
def HandsOutWithin (ctx : TokenUpdateCtx) (s : AppNodes) (ns : List AppNode) : Prop :=
  ∀ ctx' s' assigned, ctx.update s setQuotaNew = some (ctx', s', assigned) →
    handedOut s' assigned ns ≤ total (·.tokenQuota) ns

/-- The pool is within what the nodes have beyond their minima, less the
minima. -/
def PoolWithin (ctx : TokenUpdateCtx) (ns : List AppNode) : Prop :=
  (ctx.updateTokenLeftBase.toNat : ℤ) ≤ total (·.spare) ns - total (·.limit.min) ns

/-- What is handed out is at least the pool. -/
theorem InContext.pool_le_handedOut {ctx' : TokenUpdateCtx} {assigned : List AppNodePtr}
    (hc : InContext ctx s₁ (ns.reverse.map AppNode.initUpdateNode))
    (h : ctx.update s₁ setQuotaNew = some (ctx', s', assigned)) :
    ctx.updateTokenLeftBase.toNat ≤ handedOut s' assigned ns ∧
      handedOut s' assigned ns ≤ ctx.updateTokenLeftBase.toNat + total (·.limit.min) ns := by
  obtain ⟨seen, hSeen, hOut⟩ := hc.handedOut_eq h
  rw [handedOut_collected] at hOut
  have hLe := total_le_of_sublist (·.limit.min) hSeen.sublist
  rw [total_map, total_perm _ (List.reverse_perm ns)] at hLe
  exact ⟨by omega, by rw [hOut]; exact Nat.add_le_add_left hLe _⟩

/-- A rebalance whose numbers fit comes to its end. -/
theorem ToRebalance.completes (hr : ToRebalance s ns) (hWeights : total (·.press) ns < 2 ^ 64)
    (hCollect : TokenUpdateCtx.init.addResources s (ns.map AppNode.ptr) = some (ctx, s₁))
    (hProducts : ∀ n ∈ ns, ctx.updateTokenLeftBase.toNat * n.press.toNat < 2 ^ 64)
    (hQuotas : total (·.tokenQuota) ns < 2 ^ 64)
    (h : 2 * total (·.limit.min) ns ≤ total (·.tokenQuota) ns) :
    (ctx.update s₁ setQuotaNew).isSome := by
  have hQuota := hr.total_quota
  have hPool := hr.toNat_pool hCollect
  refine (hr.collected hWeights hCollect hProducts).completes ?_
  rw [total_map, total_perm _ (List.reverse_perm ns)]
  simp only [AppNode.initUpdateNode]
  omega

/-- **Rebalancing.** It hands out no more than it collects, from a pool that
did not wrap, if the minima make up at most half of the quotas and the weights
add up; with more than that in minima the pool wraps. Where the quotas add up,
and the minima to less than `2 ^ 63`, no other rebalance hands out that
little. -/
theorem rebalance_within_iff (hr : ToRebalance s ns)
    (hCollect : TokenUpdateCtx.init.addResources s (ns.map AppNode.ptr) = some (ctx, s₁))
    (hProducts : ∀ n ∈ ns, ctx.updateTokenLeftBase.toNat * n.press.toNat < 2 ^ 64) :
    (total (·.press) ns < 2 ^ 64 → 2 * total (·.limit.min) ns ≤ total (·.tokenQuota) ns →
      PoolWithin ctx ns ∧ HandsOutWithin ctx s₁ ns) ∧
    (PoolWithin ctx ns ∧ HandsOutWithin ctx s₁ ns →
      2 * total (·.limit.min) ns ≤ total (·.tokenQuota) ns) ∧
    (total (·.press) ns < 2 ^ 64 → total (·.tokenQuota) ns < 2 ^ 64 →
      total (·.limit.min) ns < 2 ^ 63 →
      ((ctx.update s₁ setQuotaNew).isSome ∧ HandsOutWithin ctx s₁ ns ↔
        2 * total (·.limit.min) ns ≤ total (·.tokenQuota) ns)) := by
  have hQuota := hr.total_quota
  have hPool := hr.toNat_pool hCollect
  have hEnough : total (·.press) ns < 2 ^ 64 →
      2 * total (·.limit.min) ns ≤ total (·.tokenQuota) ns →
      PoolWithin ctx ns ∧ HandsOutWithin ctx s₁ ns := by
    intro hWeights h
    have hWithin : PoolWithin ctx ns := by
      unfold PoolWithin
      omega
    refine ⟨hWithin, fun ctx' s' assigned hUpdate => ?_⟩
    have hOut := ((hr.collected hWeights hCollect hProducts).pool_le_handedOut hUpdate).2
    unfold PoolWithin at hWithin
    omega
  refine ⟨hEnough, fun h => ?_, fun hWeights hQuotas hBound => ⟨fun h => ?_, fun h => ⟨?_, ?_⟩⟩⟩
  · have hWithin := h.1
    unfold PoolWithin at hWithin
    omega
  · obtain ⟨⟨ctx', s', assigned⟩, hUpdate⟩ := Option.isSome_iff_exists.mp h.1
    have hOut := ((hr.collected hWeights hCollect hProducts).pool_le_handedOut hUpdate).1
    have hLe := h.2 ctx' s' assigned hUpdate
    omega
  · exact hr.completes hWeights hCollect hProducts hQuotas h
  · exact (hEnough hWeights h).2

section TwoNodes

/-- Two nodes with a minimum of 10 tokens, a quota, and one token of pressure
each. -/
def twoNodes (quota : ULong) : List AppNode :=
  [1, 2].map fun ptr =>
    { AppNode.init ptr 10 0 with tokenQuota := quota, tokenQuotaNew := quota, press := 1 }

def twoNodesStore (quota : ULong) : AppNodes := ⟨twoNodes quota, ⟨[]⟩⟩

/-- The two nodes collected. -/
def twoNodesCollected (quota : ULong) : Option (TokenUpdateCtx × AppNodes) :=
  TokenUpdateCtx.init.addResources (twoNodesStore quota) [1, 2]

theorem twoNodes_toRebalance :
    ToRebalance (twoNodesStore 10) (twoNodes 10) ∧ ToRebalance (twoNodesStore 30) (twoNodes 30) := by
  refine ⟨⟨⟨?_, ?_, ?_⟩, ?_, ?_⟩, ⟨⟨?_, ?_, ?_⟩, ?_, ?_⟩⟩ <;> decide

theorem twoNodes_collected (quota : ULong) (h : (twoNodesCollected quota).all (fun c =>
      (twoNodes quota).all fun n => c.1.updateTokenLeftBase.toNat * n.press.toNat < 2 ^ 64) = true)
    {ctx : TokenUpdateCtx} {s₁ : AppNodes} (hCollect : twoNodesCollected quota = some (ctx, s₁)) :
    ∀ n ∈ twoNodes quota, ctx.updateTokenLeftBase.toNat * n.press.toNat < 2 ^ 64 := by
  rw [hCollect] at h
  simpa using h

/-- Quotas of 30 leave a pool of 20. -/
theorem rebalance_within_two_nodes : ∃ ctx s₁, twoNodesCollected 30 = some (ctx, s₁) ∧
    PoolWithin ctx (twoNodes 30) ∧ (ctx.update s₁ setQuotaNew).isSome ∧
      HandsOutWithin ctx s₁ (twoNodes 30) := by
  obtain ⟨⟨ctx, s₁⟩, hCollect⟩ := Option.isSome_iff_exists.mp
    (show (twoNodesCollected 30).isSome = true by decide)
  obtain ⟨hEnough, -, hExact⟩ := rebalance_within_iff twoNodes_toRebalance.2 hCollect
    (twoNodes_collected 30 (by decide) hCollect)
  exact ⟨ctx, s₁, hCollect, (hEnough (by decide) (by decide)).1,
    (hExact (by decide) (by decide) (by decide)).mpr (by decide)⟩

/-- Quotas of 10 leave a pool of `2 ^ 64 - 20`. -/
theorem minima_wrap_the_pool :
    ¬ ∀ (s s₁ : AppNodes) (ns : List AppNode) (ctx : TokenUpdateCtx), ToRebalance s ns →
      TokenUpdateCtx.init.addResources s (ns.map AppNode.ptr) = some (ctx, s₁) →
      (∀ n ∈ ns, ctx.updateTokenLeftBase.toNat * n.press.toNat < 2 ^ 64) →
      HandsOutWithin ctx s₁ ns := by
  intro hAlways
  obtain ⟨⟨ctx, s₁⟩, hCollect⟩ := Option.isSome_iff_exists.mp
    (show (twoNodesCollected 10).isSome = true by decide)
  have hWithin := hAlways _ s₁ (twoNodes 10) ctx twoNodes_toRebalance.1 hCollect
    (twoNodes_collected 10 (by decide) hCollect)
  have hOut : (twoNodesCollected 10).bind (fun c => (c.1.update c.2 setQuotaNew).map
      fun res => handedOut res.2.1 res.2.2 (twoNodes 10)) = some (2 ^ 64) := by decide
  rw [hCollect, Option.bind_some] at hOut
  obtain ⟨⟨ctx', s', assigned⟩, hUpdate, hSum⟩ := Option.map_eq_some_iff.mp hOut
  have hLe := hWithin ctx' s' assigned hUpdate
  rw [hSum] at hLe
  revert hLe
  decide

end TwoNodes

end DatastorQos
