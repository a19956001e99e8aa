import DatastorQos.Dispatcher.Shares

/-!
# datastor_qos — a rebalance spends its pool

Without limits, the turns of both passes return what there is to hand out: the
shares of any nodes fit in the pool (`InContext.total_share_le`), so no turn of
the first pass takes more than is left, and the first turn of the second takes
the rest.

* `pool_spent_exactly` — `token_left` never wraps, and ends at 0.
-/

namespace DatastorQos

open Apportion TokenUpdateCtx AppNodes

variable {s s' : AppNodes} {n : AppNode} {ns : List AppNode} {ctx : TokenUpdateCtx}

/-- No quota that is assigned wraps: neither a share with its base, nor that of
the first node with what the shares leave. (A node after an early end of the
first pass has no share.) -/
structure QuotasFit (ctx : TokenUpdateCtx) (ns : List AppNode) : Prop where
  shares : ∀ n ∈ ns, (ctx.shareOf n).toNat + n.updatenode.tokenBase.toNat < 2 ^ 64
  first  : ∀ n ∈ ns.head?, (ctx.shareOf n).toNat + n.updatenode.tokenBase.toNat +
    (ctx.updateTokenLeftBase.toNat - total ctx.shareOf ns) < 2 ^ 64

/-- What is handed out, as a number. -/
theorem toNat_updateTokenLeftBase (h : ctx.tokenStatic ≤ ctx.tokenTotal) :
    ctx.updateTokenLeftBase.toNat = ctx.tokenTotal.toNat - ctx.tokenStatic.toNat :=
  BitVec.toNat_sub_of_le h

/-- What the first pass leaves is what all shares leave: the nodes it does not get
to have none. -/
theorem InContext.left_eq (hc : InContext ctx s ns) {tokenLeft : ULong} {seen : List AppNode}
    (hPass : Pass s ns ctx.quotaOf ctx.shareOf ctx.updateTokenLeftBase s' tokenLeft seen) :
    tokenLeft.toNat = ctx.updateTokenLeftBase.toNat - total ctx.shareOf ns := by
  have hLeft := hc.toNat_left hPass.first.sublist
  rw [← hPass.left] at hLeft
  rcases hPass.ended with rfl | rfl
  · omega
  · have hLe := total_le_of_sublist ctx.shareOf hPass.first.sublist
    have hZero : (0 : ULong).toNat = 0 := rfl
    omega

/-- A quota of the first pass, as a number. -/
theorem QuotasFit.toNat_quotaOf (hFit : QuotasFit ctx ns) (hn : n ∈ ns) :
    (ctx.quotaOf n).toNat = (ctx.shareOf n).toNat + n.updatenode.tokenBase.toNat := by
  have hLess := hFit.shares n hn
  rw [show ctx.quotaOf n = ctx.shareOf n + n.updatenode.tokenBase from rfl, BitVec.toNat_add,
    Nat.mod_eq_of_lt hLess]

/-- The rebalance comes to its end. -/
theorem QuotasFit.completes (hFit : QuotasFit ctx (n :: ns)) (hc : InContext ctx s (n :: ns)) :
    (ctx.update s setQuotaNew).isSome := by
  have hMin : ∀ n' ∈ n :: ns, n'.limit.min ≤ ctx.quotaOf n' := by
    intro n' hn'
    rw [← hc.base n' hn', BitVec.le_def, hFit.toNat_quotaOf hn']
    omega
  refine update_completes hc.toCollected hc.lead (BitVec.lt_def.mpr hc.positive) hMin ?_
  intro s₁ tokenLeft seen hPass
  have hFirst := hFit.first n rfl
  rw [← hc.left_eq hPass, ← hFit.toNat_quotaOf List.mem_cons_self] at hFirst
  have hMinFirst := BitVec.le_def.mp (hMin n List.mem_cons_self)
  rw [BitVec.le_def, BitVec.toNat_add, Nat.mod_eq_of_lt hFirst]
  omega

/-- **The pool is spent exactly.** Without limits, `update` returns with an empty
context; no turn of its two passes returns more than is left to it, and all of
them together return what there was to hand out, so that nothing is left. -/
theorem pool_spent_exactly (hc : InContext ctx s ns) (hNat : ctx.tokenStatic ≤ ctx.tokenTotal)
    (hFit : QuotasFit ctx ns) :
    ∃ s' turns turns', ctx.updateTurns s = some (init, s', 0, turns, turns') ∧
      ctx.update s setQuotaNew = some (init, s', (turns ++ turns').map Turn.pos) ∧
      (∀ turn ∈ turns ++ turns', turn.used ≤ turn.tokenLeft) ∧
      total Turn.used (turns ++ turns') = ctx.tokenTotal.toNat - ctx.tokenStatic.toNat := by
  obtain _ | ⟨n, ns⟩ := ns
  · have hNone := hc.weight ▸ hc.positive
    simp at hNone
  have hReturns := hFit.completes hc
  rw [update_eq_updateTurns, Option.isSome_map] at hReturns
  obtain ⟨⟨ctx', s₂, tokenLeft', turns, turns'⟩, hTurns⟩ := Option.isSome_iff_exists.mp hReturns
  have hUpdate := ctx.update_eq_updateTurns s
  rw [hTurns] at hUpdate
  obtain ⟨rfl, s₁, tokenLeft, hSpends, hSecond⟩ := updateTurns_spends hTurns
  rw [hc.lead] at hSpends hSecond
  obtain ⟨seen, hPass⟩ := FirstPass.of_spends hc.placed hSpends
  have hShares := Pass.of_firstPass hc.toCollected hSpends hPass
  obtain ⟨seen, rfl, -⟩ := hPass.starts
  obtain ⟨rfl, rfl, -⟩ := secondPass_whole (hPass.offered n List.mem_cons_self)
    (AppNode.newQuotaUnderLimit_uncapped (hc.plain n List.mem_cons_self) _) hSecond
  -- the first pass returns the shares of the nodes it gets to
  have hUsed : total Turn.used turns = total ctx.shareOf (n :: seen) :=
    hPass.total_used.trans
      (total_congr fun n' hn' => takes_eq_newShare (hc.plain n' (hPass.first.sublist.subset hn')))
  have hWithin := hc.total_share_le hPass.first.sublist
  obtain ⟨hTurnsFit, hLeft⟩ := hSpends.no_wrap (by rw [hUsed]; exact hWithin)
  refine ⟨s₂, turns, [⟨n.ptr, tokenLeft, tokenLeft⟩], hTurns, ?_, ?_, ?_⟩
  · rw [hUpdate, List.map_append]
    rfl
  · exact List.forall_mem_append.mpr ⟨hTurnsFit, by simp⟩
  · rw [← toNat_updateTokenLeftBase hNat, ← hLeft]
    simp only [total, List.map_append, List.sum_append, List.map_cons, List.map_nil, List.sum_cons,
      List.sum_nil, Nat.add_zero]
    exact Nat.add_comm _ _

theorem weighedNodes_inContext :
    InContext (weighedCtx 1) (weighedNodes 1) [weighedNode 1 1, weighedNode 2 1] := by
  refine ⟨⟨?_, ?_, ?_⟩, ?_, ?_, ?_, ?_, ?_⟩ <;> decide

/-- Two nodes of weight 1 share a pool of 20. -/
theorem pool_spent_equal_weights : ∃ s' turns turns',
    (weighedCtx 1).updateTurns (weighedNodes 1) = some (init, s', 0, turns, turns') ∧
      (weighedCtx 1).update (weighedNodes 1) setQuotaNew =
        some (init, s', (turns ++ turns').map Turn.pos) ∧
      (∀ turn ∈ turns ++ turns', turn.used ≤ turn.tokenLeft) ∧
      total Turn.used (turns ++ turns') = 20 :=
  pool_spent_exactly weighedNodes_inContext (by decide) ⟨by decide, by decide⟩

end DatastorQos
