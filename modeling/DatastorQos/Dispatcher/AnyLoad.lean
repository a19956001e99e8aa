import DatastorQos.Dispatcher.Rebalance
import DatastorQos.Dispatcher.DispManager

/-!
# datastor_qos — which loads a rebalance can take

Nothing keeps the divisor of a rebalance, the sum of the presses, from being 0:
it is right after nodes come online. And the pool, with its minima subtracted
twice, can wrap so far that a quota wraps as well, below the minimum of its node.

* `update_isSome_iff` — when `update` returns;
* `rebalance_defined_iff` — the same, from what the nodes report;
* `updateNodesTokenQuotaNew_isSome` — which is what the executor runs, with the nodes
  of the table;
* `no_press_no_rebalance` — one node, online, without press.
-/

namespace DatastorQos

open Apportion TokenUpdateCtx AppNodes

variable {s s₁ : AppNodes} {n : AppNode} {ns : List AppNode} {ctx : TokenUpdateCtx}

-- ---------------------------------------------------------------------------
-- When an update returns
-- ---------------------------------------------------------------------------

/-- The shares of some first nodes are the pool: the first pass ends there. -/
def SpentBy (tokenTotal : ULong) (share : AppNode → ULong) (ns : List AppNode) : Prop :=
  ∃ part, part <+: ns ∧ part ≠ [] ∧ (part.map share).sum = tokenTotal

/-- Every node that the first pass gets to has `P`. -/
def ForReached (tokenTotal : ULong) (share : AppNode → ULong) (P : AppNode → Prop)
    (ns : List AppNode) : Prop :=
  ∀ before n, before ++ [n] <+: ns → ¬ SpentBy tokenTotal share before → P n

theorem spentBy_map {tokenTotal : ULong} {share : AppNode → ULong} {f : AppNode → AppNode} :
    SpentBy tokenTotal share (ns.map f) ↔ SpentBy tokenTotal (fun n => share (f n)) ns := by
  constructor
  · rintro ⟨part, hPart, hNe, hSum⟩
    obtain ⟨part', hPart', rfl⟩ := List.prefix_map_iff.mp hPart
    rw [List.map_map] at hSum
    exact ⟨part', hPart', fun h => hNe (by rw [h, List.map_nil]), hSum⟩
  · rintro ⟨part, hPart, hNe, hSum⟩
    refine ⟨part.map f, hPart.map f, by simpa using hNe, ?_⟩
    rw [List.map_map]
    exact hSum

theorem forReached_map {tokenTotal : ULong} {share : AppNode → ULong} {f : AppNode → AppNode}
    {P : AppNode → Prop} :
    ForReached tokenTotal share P (ns.map f) ↔
      ForReached tokenTotal (fun n => share (f n)) (fun n => P (f n)) ns := by
  constructor
  · intro h before n hPrefix hNot
    refine h (before.map f) (f n) ?_ (fun hSpent => hNot (spentBy_map.mp hSpent))
    simpa using hPrefix.map f
  · intro h before x hPrefix hNot
    obtain ⟨part, hPart, heq⟩ := List.prefix_map_iff.mp hPrefix
    obtain ⟨before, last, rfl, rfl, hLast⟩ := List.append_eq_map_iff.mp heq
    obtain ⟨n, rfl, rfl⟩ := List.map_eq_singleton_iff.mp hLast
    exact h before n hPart fun hSpent => hNot (spentBy_map.mpr hSpent)

theorem unspent_iff_not_spentBy {before : List AppNode} (hPlain : ∀ n ∈ before, n.limit.max = 0) :
    Unspent ctx.updateTokenLeftBase ctx.updateWeight ctx.updateTokenLeftBase before ↔
      ¬ SpentBy ctx.updateTokenLeftBase ctx.shareOf before := by
  have hTakes : ∀ part, part <+: before →
      part.map (AppNode.takes ctx.updateTokenLeftBase ctx.updateWeight) = part.map ctx.shareOf :=
    fun part hPart => List.map_congr_left fun n hn =>
      takes_eq_newShare (hPlain n (hPart.sublist.subset hn))
  unfold Unspent SpentBy
  rw [not_exists]
  refine forall_congr' fun part => ?_
  constructor
  · rintro h ⟨hPart, hNe, hSum⟩
    refine h hPart hNe ?_
    rw [hTakes part hPart, hSum, sub_self]
  · intro h hPart hNe hZero
    rw [hTakes part hPart] at hZero
    exact h ⟨hPart, hNe, (sub_eq_zero.mp hZero).symm⟩

/-- The first pass comes to its end exactly if the total weight is above 0 and the
quota of every node that it gets to covers its minimum. -/
theorem firstPass_reaches_iff (hc : Collected s (n :: ns)) :
    (spendTurns (firstPass ctx.updateTokenLeftBase ctx.updateWeight) ((n :: ns).map AppNode.ptr)
      ctx.updateTokenLeftBase s).isSome ↔ 0 < ctx.updateWeight ∧
      ForReached ctx.updateTokenLeftBase ctx.shareOf (fun n' => n'.limit.min ≤ ctx.quotaOf n')
        (n :: ns) := by
  rw [firstPass_isSome_iff hc.placed]
  have hEach : ∀ before n', before ++ [n'] <+: n :: ns →
      ((Unspent ctx.updateTokenLeftBase ctx.updateWeight ctx.updateTokenLeftBase before →
          0 < ctx.updateWeight ∧
            n'.Covers (n'.newQuota ctx.updateTokenLeftBase ctx.updateWeight)) ↔
        (¬ SpentBy ctx.updateTokenLeftBase ctx.shareOf before →
          0 < ctx.updateWeight ∧ n'.limit.min ≤ ctx.quotaOf n')) := by
    intro before n' hPrefix
    have hMem : ∀ x ∈ before ++ [n'], x.limit.max = 0 :=
      fun x hx => hc.plain x (hPrefix.sublist.subset hx)
    rw [unspent_iff_not_spentBy fun x hx => hMem x (List.mem_append_left _ hx),
      covers_iff (hMem n' (by simp))]
    exact Iff.rfl
  constructor
  · intro h
    have h' := fun before n' hPrefix => (hEach before n' hPrefix).mp (h before n' hPrefix)
    have hNone : ¬ SpentBy ctx.updateTokenLeftBase ctx.shareOf [] := by
      rintro ⟨part, hPart, hNe, -⟩
      exact hNe (List.prefix_nil.mp hPart)
    exact ⟨(h' [] n ⟨ns, rfl⟩ hNone).1,
      fun before n' hPrefix hNot => (h' before n' hPrefix hNot).2⟩
  · rintro ⟨hWeight, h⟩ before n' hPrefix
    exact (hEach before n' hPrefix).mpr fun hNot => ⟨hWeight, h before n' hPrefix hNot⟩

/-- What the first pass leaves is what the shares of all nodes leave, or nothing,
where those of some first nodes are the pool. -/
theorem FirstPass.covered_iff {turns : List Turn} {tokenLeft : ULong} {seen : List AppNode}
    (hc : Collected s (n :: ns))
    (hPass : FirstPass ctx.updateTokenLeftBase ctx.updateWeight ctx.updateTokenLeftBase s (n :: ns)
      turns tokenLeft s₁ seen)
    (hLeft : tokenLeft = ctx.updateTokenLeftBase - (seen.map ctx.shareOf).sum)
    (hMin : n.limit.min ≤ ctx.quotaOf n) :
    n.limit.min ≤ ctx.quotaOf n + tokenLeft ↔
      SpentBy ctx.updateTokenLeftBase ctx.shareOf (n :: ns) ∨ n.limit.min ≤
        ctx.quotaOf n + (ctx.updateTokenLeftBase - ((n :: ns).map ctx.shareOf).sum) := by
  rcases hPass.ended with rfl | hZero
  · -- it got to all nodes, so no others than all of them are the pool
    rw [← hLeft]
    refine ⟨Or.inr, fun h => h.elim (fun hSpent => ?_) id⟩
    obtain ⟨part, hPart, hNe, hSum⟩ := hSpent
    have hSame : part = n :: ns := by
      by_contra hNot
      refine hPass.unspent part hPart hNe hNot ?_
      rw [hc.map_takes hPart.sublist.subset]
      exact sub_eq_zero.mpr hSum.symm
    have hNone : tokenLeft = 0 := by
      rw [hLeft, ← hSame]
      exact sub_eq_zero.mpr hSum.symm
    rw [hNone, add_zero]
    exact hMin
  · rw [hZero, add_zero]
    refine iff_of_true hMin (Or.inl ⟨seen, hPass.first, hPass.some_ (List.cons_ne_nil n ns), ?_⟩)
    rw [hZero] at hLeft
    exact (sub_eq_zero.mp hLeft.symm).symm

/-- `update` returns exactly if the total weight is above 0, the quota of every
node that the first pass gets to covers its minimum, and that of the first node
does so with what is left as well. -/
theorem update_isSome_iff (hc : Collected s (n :: ns))
    (hLead : ctx.lheadUpdateNode = (n :: ns).map AppNode.ptr) :
    (ctx.update s setQuotaNew).isSome ↔ 0 < ctx.updateWeight ∧
      ForReached ctx.updateTokenLeftBase ctx.shareOf (fun n' => n'.limit.min ≤ ctx.quotaOf n')
        (n :: ns) ∧
      (SpentBy ctx.updateTokenLeftBase ctx.shareOf (n :: ns) ∨ n.limit.min ≤
        ctx.quotaOf n + (ctx.updateTokenLeftBase - ((n :: ns).map ctx.shareOf).sum)) := by
  rw [← and_assoc, ← firstPass_reaches_iff hc, update_eq_updateTurns, Option.isSome_map,
    updateTurns, hLead]
  cases hFirst : spendTurns (firstPass ctx.updateTokenLeftBase ctx.updateWeight)
      ((n :: ns).map AppNode.ptr) ctx.updateTokenLeftBase s with
  | none => simp
  | some r =>
    obtain ⟨s₁, tokenLeft, turns⟩ := r
    have hSpends := spends_of_spendTurns hFirst
    obtain ⟨seen, hPass⟩ := FirstPass.of_spends hc.placed hSpends
    have hLeft := (Pass.of_firstPass hc hSpends hPass).left
    have hSeen : n ∈ seen := by
      obtain ⟨seen, rfl, -⟩ := hPass.starts
      exact List.mem_cons_self
    have hSecond : (spendTurns secondPass ((n :: ns).map AppNode.ptr) tokenLeft s₁).isSome ↔
        n.limit.min ≤ ctx.quotaOf n + tokenLeft :=
      secondPass_isSome_iff (hPass.offered n hSeen) (hc.plain n List.mem_cons_self)
    rw [← hPass.covered_iff hc hLeft (hPass.covers n hSeen).1, ← hSecond]
    simp only [Option.bind_eq_bind, Option.bind_some, Option.isSome_some, true_and]
    cases spendTurns secondPass ((n :: ns).map AppNode.ptr) tokenLeft s₁ <;> rfl

-- ---------------------------------------------------------------------------
-- When a rebalance returns
-- ---------------------------------------------------------------------------

/-- What a rebalance of the nodes hands out: what they have beyond their minima,
less their minima. -/
def poolOf (ns : List AppNode) : ULong := (ns.map (·.spare)).sum - (ns.map (·.limit.min)).sum

/-- The share of a node in it, by press. -/
def shareIn (ns : List AppNode) (n : AppNode) : ULong := poolOf ns * n.press / (ns.map (·.press)).sum

/-- The load that the nodes report can be shared out. -/
structure LoadFits (ns : List AppNode) : Prop where
  press  : (ns.map (·.press)).sum ≠ 0
  -- the last node collected is the first to get its share
  shares : ForReached (poolOf ns) (shareIn ns)
    (fun n => (shareIn ns n).toNat + n.limit.min.toNat < 2 ^ 64) ns.reverse
  first  : ∀ n ∈ ns.getLast?, SpentBy (poolOf ns) (shareIn ns) ns.reverse ∨
    n.limit.min ≤ shareIn ns n + n.limit.min + (poolOf ns - (ns.map (shareIn ns)).sum)

/-- `update_nodes_token_quota_new`: collect, then update. -/
def rebalance (s : AppNodes) (ptrs : List AppNodePtr) :
    Option (TokenUpdateCtx × AppNodes × List AppNodePtr) := do
  let (ctx, s) ← TokenUpdateCtx.init.addResources s ptrs
  ctx.update s setQuotaNew

/-- The executor's function returns exactly if the rebalance of the nodes in the
table does, as long as `update_ctx` is clear when it starts. -/
theorem DispManager.updateNodesTokenQuotaNew_isSome {Id : Type} {ops : IdOps Id}
    (m : DispManager ops) (hClear : m.updateCtx = TokenUpdateCtx.init) :
    m.updateNodesTokenQuotaNew.isSome = (rebalance m.apps (m.tab.items.map (·.pri))).isSome := by
  unfold updateNodesTokenQuotaNew rebalance
  rw [hClear]
  cases TokenUpdateCtx.init.addResources m.apps (m.tab.items.map (·.pri)) with
  | none => rfl
  | some r =>
    simp only [Option.bind_eq_bind, Option.bind_some]
    cases r.1.update r.2 setQuotaNew <;> rfl

/-- The context after the nodes were collected, from what they report. -/
structure CollectedLoad (ctx : TokenUpdateCtx) (ns : List AppNode) : Prop where
  pool   : ctx.updateTokenLeftBase = poolOf ns
  weight : ctx.updateWeight = (ns.map (·.press)).sum
  share  : ∀ n : AppNode, ctx.shareOf n.initUpdateNode = shareIn ns n
  quota  : ∀ n ∈ ns, ctx.quotaOf n.initUpdateNode = shareIn ns n + n.limit.min

theorem collectedLoad_init (hMin : ∀ n ∈ ns, n.limit.min ≤ n.tokenQuota) :
    CollectedLoad (TokenUpdateCtx.init.collected ns) ns := by
  have hPool : (TokenUpdateCtx.init.collected ns).updateTokenLeftBase = poolOf ns :=
    collected_pool hMin
  have hWeight : (TokenUpdateCtx.init.collected ns).updateWeight = (ns.map (·.press)).sum := by
    simp [updateWeight, TokenUpdateCtx.collected, TokenUpdateCtx.init]
  have hShare : ∀ n : AppNode, (TokenUpdateCtx.init.collected ns).shareOf n.initUpdateNode =
      shareIn ns n := by
    intro n
    rw [shareIn, ← hPool, ← hWeight]
    rfl
  refine ⟨hPool, hWeight, hShare, fun n hn => ?_⟩
  rw [← baseOf_eq (hMin n hn), ← hShare n]
  rfl

/-- A share and the minimum cover the minimum if they do not wrap. -/
theorem CollectedLoad.reached_iff (h : CollectedLoad ctx ns) {part : List AppNode}
    (hPart : part ⊆ ns) :
    ForReached (poolOf ns) (shareIn ns)
        (fun n => n.initUpdateNode.limit.min ≤ ctx.quotaOf n.initUpdateNode) part ↔
      ForReached (poolOf ns) (shareIn ns)
        (fun n => (shareIn ns n).toNat + n.limit.min.toNat < 2 ^ 64) part := by
  refine forall₂_congr fun before n => forall_congr' fun hPrefix => imp_congr_right fun _ => ?_
  have hn : n ∈ ns := hPart (hPrefix.sublist.subset (by simp))
  simp only [h.quota n hn, show n.initUpdateNode.limit.min = n.limit.min from rfl]
  bv_omega

/-- An update of the nodes, collected, returns exactly if their load fits. -/
theorem CollectedLoad.updates_iff (h : CollectedLoad ctx ns)
    (hc : Collected s₁ (ns.reverse.map AppNode.initUpdateNode))
    (hLead : ctx.lheadUpdateNode = (ns.reverse.map AppNode.initUpdateNode).map AppNode.ptr)
    (hNe : ns ≠ []) : (ctx.update s₁ setQuotaNew).isSome ↔ LoadFits ns := by
  obtain ⟨n, rest, hns⟩ :=
    List.exists_cons_of_ne_nil fun heq => hNe (List.reverse_eq_nil_iff.mp heq)
  rw [hns] at hc hLead
  have hLast : ns.getLast? = some n := by rw [← List.head?_reverse, hns]; rfl
  have hMem : n :: rest ⊆ ns := fun n' hn' => List.mem_reverse.mp (hns ▸ hn')
  have hShare : (fun n : AppNode => ctx.shareOf n.initUpdateNode) = shareIn ns := funext h.share
  have hSum : (((n :: rest).map AppNode.initUpdateNode).map ctx.shareOf).sum =
      (ns.map (shareIn ns)).sum := by
    rw [List.map_map, show ctx.shareOf ∘ AppNode.initUpdateNode = shareIn ns from hShare]
    exact hns ▸ ((List.reverse_perm ns).map _).sum_eq
  have hUpdate := update_isSome_iff hc hLead
  rw [← List.map_cons (f := AppNode.initUpdateNode), hSum, spentBy_map, forReached_map, hShare,
    h.pool, h.weight, h.reached_iff hMem, h.quota n (hMem List.mem_cons_self)] at hUpdate
  rw [hUpdate]
  constructor
  · rintro ⟨hPress, hShares, hFirst⟩
    refine ⟨fun hZero => ?_, hns ▸ hShares, fun n' hn' => ?_⟩
    · rw [hZero] at hPress
      exact absurd hPress (by decide)
    · obtain rfl := Option.some.inj (hLast.symm.trans hn')
      exact hns ▸ hFirst
  · rintro ⟨hPress, hShares, hFirst⟩
    refine ⟨?_, hns ▸ hShares, hns ▸ hFirst n hLast⟩
    bv_omega

/-- **A rebalance returns** exactly if no node is online or the load fits: the
divisor is not 0, and no quota falls below the minimum of its node. -/
theorem rebalance_defined_iff (hc : Collected s ns) (hMin : ∀ n ∈ ns, n.limit.min ≤ n.tokenQuota) :
    (rebalance s (ns.map AppNode.ptr)).isSome ↔ ns = [] ∨ LoadFits ns := by
  obtain ⟨s₁, hCollect, hNodes, -⟩ := addResources_eq TokenUpdateCtx.init s hc.found hc.apart
  rw [rebalance, hCollect, Option.bind_eq_bind, Option.bind_some]
  by_cases hNil : ns = []
  · subst hNil
    exact iff_of_true rfl (Or.inl rfl)
  · rw [or_iff_right hNil]
    exact (collectedLoad_init hMin).updates_iff (hc.prepared hNodes) (collected_lead ns) hNil

/-- A node with a minimum of 10 tokens, and a press. -/
def loneNode (press : ULong) : AppNode :=
  { AppNode.init 1 10 0 with tokenQuota := 30, tokenQuotaNew := 30, press := press }

/-- One with a minimum of 20, more tokens and more press. -/
def pressedNode : AppNode :=
  { AppNode.init 2 20 0 with tokenQuota := 90, tokenQuotaNew := 90, press := 3 }

/-- Only one of the two has a press. -/
def twoLoads : List AppNode := [loneNode 0, pressedNode]

theorem twoLoads_collected : Collected ⟨twoLoads, ⟨[]⟩⟩ twoLoads := by
  refine ⟨?_, ?_, ?_⟩ <;> decide

/-- That is enough for their rebalance to return; -/
theorem two_loads_rebalance : (rebalance ⟨twoLoads, ⟨[]⟩⟩ [1, 2]).isSome = true := by
  refine (rebalance_defined_iff twoLoads_collected (by decide)).mpr (Or.inr ⟨by decide, ?_, ?_⟩)
  · intro before n hPrefix _
    have hFits : ∀ n ∈ twoLoads.reverse, (shareIn twoLoads n).toNat + n.limit.min.toNat < 2 ^ 64 := by
      decide
    exact hFits n (hPrefix.sublist.subset (List.mem_append_right before (List.mem_singleton_self n)))
  · intro n hn
    obtain rfl : pressedNode = n := by simpa [twoLoads] using hn
    exact Or.inr (by decide)

/-- that of a node alone without press does not. -/
theorem no_press_no_rebalance :
    ¬ ∀ (s : AppNodes) (ns : List AppNode), Collected s ns →
      (∀ n ∈ ns, n.limit.min ≤ n.tokenQuota) → (rebalance s (ns.map AppNode.ptr)).isSome := by
  intro hAlways
  have hNone : (rebalance ⟨[loneNode 0], ⟨[]⟩⟩ [1]).isSome = false := by decide
  have hSome := hAlways ⟨[loneNode 0], ⟨[]⟩⟩ [loneNode 0] ⟨by decide, by decide, by decide⟩ (by decide)
  exact absurd (hNone.symm.trans hSome) (by decide)

end DatastorQos
