import Mathlib.Data.Int.Cast.Basic
import DatastorQos.Dispatcher.Spending

/-!
# datastor_qos — a rebalance under limits

`tmp_token_quota` keeps what a node was offered, also where the limit let it take
less. The second pass subtracts the offer from what the node takes then, so what
a node could not take in the first pass comes back as left over once more, and
whoever comes after that node gets it.

* `caps_create_no_tokens_iff` — the nodes assigned get no more than the pool
  exactly if the nodes before the first such one have room for the rest, or all
  nodes together have no more room than that, or an offer wraps;
* `capped_node_creates_tokens` — a pool of 20 that hands out 30.
-/

namespace DatastorQos

open Apportion TopUp TokenUpdateCtx AppNodes

/-- Nodes in the context, each with a limit that covers its minimum or none.
`update_node_init` sets `token_base` to no more than the minimum. -/
structure LimitedContext (ctx : TokenUpdateCtx) (s : AppNodes) (ns : List AppNode) : Prop
    extends Placed s ns where
  lead     : ctx.lheadUpdateNode = ns.map AppNode.ptr
  nat      : ctx.tokenStatic ≤ ctx.tokenTotal
  base_le  : ∀ n ∈ ns, n.updatenode.tokenBase ≤ n.limit.min
  limits   : ∀ n ∈ ns, n.limit.max = 0 ∨ n.limit.min ≤ n.limit.max
  weight   : ctx.updateWeight.toNat = total (·.updatenode.weight) ns
  positive : 0 < ctx.updateWeight.toNat
  products : ∀ n ∈ ns, ctx.updateTokenLeftBase.toNat * n.updatenode.weight.toNat < 2 ^ 64

/-- What a node is offered in the first pass, under its limit. -/
def TokenUpdateCtx.slotOf (ctx : TokenUpdateCtx) : AppNode → Slot := AppNode.slot ctx.quotaOf

/-- What the nodes take of the pool in the first pass, -/
def TokenUpdateCtx.takenOf (ctx : TokenUpdateCtx) (ns : List AppNode) : ℕ :=
  (ns.map fun n => (ctx.slotOf n).accepted - n.updatenode.tokenBase.toNat).sum

/-- and what they leave. -/
def TokenUpdateCtx.leftBy (ctx : TokenUpdateCtx) (ns : List AppNode) : ℕ :=
  ctx.tokenTotal.toNat - ctx.tokenStatic.toNat - ctx.takenOf ns

/-- What the nodes assigned are promised beyond their bases. -/
def beyondBases (s : AppNodes) (assigned : List AppNodePtr) (ns : List AppNode) : ℤ :=
  ((ns.filter fun n => n.ptr ∈ assigned).map fun n =>
    ((s.quotaNew n.ptr).toNat : ℤ) - n.updatenode.tokenBase.toNat).sum

/-- The nodes assigned are promised no more than the pool beyond their bases, and
none of them more than its limit. -/
def NoTokensCreated (ctx : TokenUpdateCtx) (s : AppNodes) (assigned : List AppNodePtr)
    (ns : List AppNode) : Prop :=
  beyondBases s assigned ns ≤ (ctx.tokenTotal.toNat : ℤ) - ctx.tokenStatic.toNat ∧
    ∀ n ∈ ns, n.ptr ∈ assigned → n.limit.max ≠ 0 → s.quotaNew n.ptr ≤ n.limit.max

variable {s s' s₁ : AppNodes} {n : AppNode} {ns seen : List AppNode} {ctx ctx' : TokenUpdateCtx}
  {turns : List Turn} {tokenLeft : ULong}

-- ---------------------------------------------------------------------------
-- One node in the first pass
-- ---------------------------------------------------------------------------

theorem sum_sub_eq (f g : AppNode → ℕ) (l : List AppNode) :
    (l.map fun n => (f n : ℤ) - g n).sum = ((l.map f).sum : ℤ) - (l.map g).sum := by
  induction l with
  | nil => rfl
  | cons n l ih =>
    simp only [List.map_cons, List.sum_cons, ih]
    push_cast
    omega

/-- What a node is offered and what it takes, in numbers: its share and its base,
the latter in any case. -/
structure FirstOffer (ctx : TokenUpdateCtx) (n : AppNode) : Prop where
  quota    : (ctx.quotaOf n).toNat = (ctx.shareOf n).toNat + n.updatenode.tokenBase.toNat
  base_le  : n.updatenode.tokenBase.toNat ≤ (ctx.slotOf n).accepted
  takes_eq : (n.takes ctx.updateTokenLeftBase ctx.updateWeight).toNat =
    (ctx.slotOf n).accepted - n.updatenode.tokenBase.toNat

theorem FirstOffer.of_base_le (hQuota : (ctx.quotaOf n).toNat =
      (ctx.shareOf n).toNat + n.updatenode.tokenBase.toNat)
    (hBase : n.updatenode.tokenBase.toNat ≤ (ctx.slotOf n).accepted) : FirstOffer ctx n where
  quota := hQuota
  base_le := hBase
  takes_eq := by
    have hAccepted := n.toNat_underLimit ctx.quotaOf (ctx.quotaOf n)
    rw [show (n.slot ctx.quotaOf).accept (ctx.quotaOf n).toNat = (ctx.slotOf n).accepted from rfl]
      at hAccepted
    rw [AppNode.takes, show n.newQuota ctx.updateTokenLeftBase ctx.updateWeight = ctx.quotaOf n from
      rfl, BitVec.toNat_sub_of_le (by rw [BitVec.le_def, hAccepted]; exact hBase), hAccepted]

/-- A node that is assigned took at least its minimum. -/
theorem FirstOffer.of_covers (hBase : n.updatenode.tokenBase ≤ n.limit.min)
    (hCovers : n.Covers (ctx.quotaOf n)) : FirstOffer ctx n := by
  have hMin := BitVec.le_def.mp hCovers.2
  rw [n.toNat_underLimit ctx.quotaOf] at hMin
  refine .of_base_le ?_ (Nat.le_trans (BitVec.le_def.mp hBase) hMin)
  have hLess := hCovers.1
  rw [show ctx.quotaOf n = ctx.shareOf n + n.updatenode.tokenBase from rfl] at hLess ⊢
  bv_omega

/-- A node without a share takes its base. -/
theorem FirstOffer.of_no_share (hBase : n.updatenode.tokenBase ≤ n.limit.min)
    (hLimit : n.limit.max = 0 ∨ n.limit.min ≤ n.limit.max) (hNone : ctx.shareOf n = 0) :
    FirstOffer ctx n ∧ (ctx.slotOf n).accepted = n.updatenode.tokenBase.toNat := by
  have hQuota : ctx.quotaOf n = n.updatenode.tokenBase := by
    rw [show ctx.quotaOf n = ctx.shareOf n + n.updatenode.tokenBase from rfl, hNone, zero_add]
  have hAccepted : (ctx.slotOf n).accepted = n.updatenode.tokenBase.toNat := by
    rw [show (ctx.slotOf n).accepted = (n.slot ctx.quotaOf).accept (ctx.quotaOf n).toNat from rfl,
      ← n.toNat_underLimit ctx.quotaOf, hQuota, AppNode.newQuotaUnderLimit]
    split
    · unfold ULong.cmin
      split <;> bv_omega
    · rfl
  refine ⟨.of_base_le ?_ (Nat.le_of_eq hAccepted.symm), hAccepted⟩
  rw [hQuota, hNone]
  simp

/-- Of its share a node takes no more than that, and leaves its excess. -/
theorem FirstOffer.takes_add_excess (h : FirstOffer ctx n) :
    (n.takes ctx.updateTokenLeftBase ctx.updateWeight).toNat + (ctx.slotOf n).excess =
      (ctx.shareOf n).toNat := by
  have hSplit := (ctx.slotOf n).accepted_add_excess
  have hBase := h.base_le
  rw [show (ctx.slotOf n).offer = (ctx.quotaOf n).toNat from rfl, h.quota] at hSplit
  rw [h.takes_eq]
  omega

-- ---------------------------------------------------------------------------
-- The first pass, in numbers
-- ---------------------------------------------------------------------------

/-- The first pass over nodes with limits. -/
structure LimitedPass (ctx : TokenUpdateCtx) (ns : List AppNode) (tokenLeft : ULong)
    (seen : List AppNode) : Prop where
  offers : ∀ n ∈ ns, FirstOffer ctx n
  -- the nodes it does not get to have no share
  reached : ctx.takenOf seen = ctx.takenOf ns
  left   : tokenLeft.toNat = ctx.leftBy ns
  taken  : ctx.takenOf ns + ctx.leftBy ns = ctx.tokenTotal.toNat - ctx.tokenStatic.toNat
  excess : ctx.takenOf ns + excesses ctx.slotOf ns ≤ ctx.tokenTotal.toNat - ctx.tokenStatic.toNat

/-- No part of the nodes is offered more than the pool. -/
theorem LimitedContext.total_share_le (hc : LimitedContext ctx s ns) :
    total ctx.shareOf ns ≤ ctx.tokenTotal.toNat - ctx.tokenStatic.toNat := by
  have hShares : total ctx.shareOf ns = ((ns.map (·.updatenode.weight.toNat)).map
      (share ctx.updateTokenLeftBase.toNat · ctx.updateWeight.toNat)).sum := by
    rw [total, List.map_map]
    exact congrArg List.sum (List.map_congr_left fun n hn => toNat_share (hc.products n hn))
  rw [hShares, ← toNat_updateTokenLeftBase hc.nat]
  exact sum_share_le hc.positive (Nat.le_of_eq hc.weight.symm)

theorem takenOf_eq (hOffers : ∀ n ∈ ns, FirstOffer ctx n) :
    ctx.takenOf ns = total (AppNode.takes ctx.updateTokenLeftBase ctx.updateWeight) ns :=
  congrArg List.sum (List.map_congr_left fun n hn => ((hOffers n hn).takes_eq).symm)

/-- What the nodes take and what exceeds their limits are their shares. -/
theorem takenOf_add_excesses (hOffers : ∀ n ∈ ns, FirstOffer ctx n) :
    ctx.takenOf ns + excesses ctx.slotOf ns = total ctx.shareOf ns := by
  rw [takenOf_eq hOffers, total, total, excesses, ← List.sum_map_add]
  exact congrArg List.sum (List.map_congr_left fun n hn => (hOffers n hn).takes_add_excess)

theorem takenOf_append (ns ns' : List AppNode) :
    ctx.takenOf (ns ++ ns') = ctx.takenOf ns + ctx.takenOf ns' := by
  simp only [takenOf, List.map_append, List.sum_append]

/-- Nodes that take no more than their bases take nothing of the pool. -/
theorem takenOf_eq_zero
    (h : ∀ n ∈ ns, (ctx.slotOf n).accepted = n.updatenode.tokenBase.toNat) : ctx.takenOf ns = 0 := by
  unfold takenOf
  rw [List.sum_eq_zero_iff]
  simp only [List.mem_map, forall_exists_index, and_imp, forall_apply_eq_imp_iff₂]
  intro n hn
  rw [h n hn, Nat.sub_self]

/-- The nodes that the first pass gets to are offered what is left and taken. -/
theorem FirstPass.left_add_taken (hc : LimitedContext ctx s ns)
    (h : Spends (firstPass ctx.updateTokenLeftBase ctx.updateWeight) (ns.map AppNode.ptr)
      ctx.updateTokenLeftBase s turns tokenLeft s₁)
    (hPass : FirstPass ctx.updateTokenLeftBase ctx.updateWeight ctx.updateTokenLeftBase s ns turns
      tokenLeft s₁ seen) (hSeen : ∀ n ∈ seen, FirstOffer ctx n) :
    tokenLeft.toNat + ctx.takenOf seen = ctx.tokenTotal.toNat - ctx.tokenStatic.toNat := by
  have hUsed : total Turn.used turns = ctx.takenOf seen :=
    hPass.total_used.trans (takenOf_eq hSeen).symm
  have hTakes := takenOf_add_excesses hSeen
  have hPart := total_le_of_sublist ctx.shareOf hPass.first.sublist
  have hShares := hc.total_share_le
  rw [← toNat_updateTokenLeftBase hc.nat] at hShares ⊢
  obtain ⟨-, hLeft⟩ := h.no_wrap (by rw [hUsed]; omega)
  rw [← hUsed]
  exact hLeft

/-- Where the first pass ends early, the shares of the nodes that it gets to make up
the pool, and the others have none. -/
theorem FirstPass.no_share {rest : List AppNode} (hc : LimitedContext ctx s ns)
    (hPass : FirstPass ctx.updateTokenLeftBase ctx.updateWeight ctx.updateTokenLeftBase s ns turns
      tokenLeft s₁ seen) (hSeen : ∀ n ∈ seen, FirstOffer ctx n)
    (hLeft : tokenLeft.toNat + ctx.takenOf seen = ctx.tokenTotal.toNat - ctx.tokenStatic.toNat)
    (hRest : seen ++ rest = ns) : ∀ n ∈ rest, ctx.shareOf n = 0 := by
  intro n hn
  rcases hPass.ended with rfl | rfl
  · rw [List.self_eq_append_right.mp hRest.symm] at hn
    simp at hn
  · have hZero : (0 : ULong).toNat = 0 := rfl
    have hLe := le_total_of_mem ctx.shareOf hn
    have hTakes := takenOf_add_excesses hSeen
    have hShares := hc.total_share_le
    have hSplit : total ctx.shareOf seen + total ctx.shareOf rest = total ctx.shareOf ns := by
      rw [← hRest, total, total, total, List.map_append, List.sum_append]
    exact BitVec.eq_of_toNat_eq (by rw [hZero]; omega)

theorem LimitedPass.of_firstPass (hc : LimitedContext ctx s ns)
    (h : Spends (firstPass ctx.updateTokenLeftBase ctx.updateWeight) (ns.map AppNode.ptr)
      ctx.updateTokenLeftBase s turns tokenLeft s₁)
    (hPass : FirstPass ctx.updateTokenLeftBase ctx.updateWeight ctx.updateTokenLeftBase s ns turns
      tokenLeft s₁ seen) :
    LimitedPass ctx ns tokenLeft seen := by
  have hSeen : ∀ n ∈ seen, FirstOffer ctx n := fun n hn =>
    .of_covers (hc.base_le n (hPass.first.sublist.subset hn)) (hPass.covers n hn)
  have hLeft := hPass.left_add_taken hc h hSeen
  obtain ⟨rest, hRest⟩ := hPass.first
  have hLimits : ∀ n ∈ rest, FirstOffer ctx n ∧
      (ctx.slotOf n).accepted = n.updatenode.tokenBase.toNat := by
    intro n hn
    have hMem : n ∈ ns := hRest ▸ List.mem_append_right seen hn
    exact FirstOffer.of_no_share (hc.base_le n hMem) (hc.limits n hMem)
      (hPass.no_share hc hSeen hLeft hRest n hn)
  have hOffers : ∀ n ∈ ns, FirstOffer ctx n := by
    rw [← hRest]
    exact List.forall_mem_append.mpr ⟨hSeen, fun n hn => (hLimits n hn).1⟩
  have hReached : ctx.takenOf seen = ctx.takenOf ns := by
    rw [← hRest, takenOf_append, takenOf_eq_zero fun n hn => (hLimits n hn).2, Nat.add_zero]
  have hAll := takenOf_add_excesses hOffers
  have hShares := hc.total_share_le
  refine ⟨hOffers, hReached, ?_, ?_, ?_⟩
  · rw [leftBy, ← hReached]
    omega
  · rw [leftBy]
    omega
  · omega

-- ---------------------------------------------------------------------------
-- Both passes
-- ---------------------------------------------------------------------------

/-- The nodes the second pass serves, and their quotas then. -/
def TokenUpdateCtx.dealtBy (ctx : TokenUpdateCtx) (ns : List AppNode) : List (AppNode × ℕ) :=
  (topUp ctx.slotOf (2 ^ 64) ns (ctx.leftBy ns)).1

/-- The state after both passes: the nodes served have what was dealt, the others
what they took in the first pass. -/
structure BothPasses (ctx : TokenUpdateCtx) (ns seen : List AppNode) (turns : List Turn)
    (s₁ s' : AppNodes) : Prop where
  first  : (ctx.dealtBy ns).map Prod.fst <+: seen
  pos    : turns.map Turn.pos = (ctx.dealtBy ns).map (·.1.ptr)
  quotas : ∀ d ∈ ctx.dealtBy ns, (s'.quotaNew d.1.ptr).toNat = d.2
  others : ∀ x, x ∉ (ctx.dealtBy ns).map (·.1.ptr) → s'.node? x = s₁.node? x

theorem BothPasses.of_spends {tokenLeft' : ULong} (hc : LimitedContext ctx s (n :: ns))
    (hPass : FirstPass ctx.updateTokenLeftBase ctx.updateWeight ctx.updateTokenLeftBase s (n :: ns)
      turns tokenLeft s₁ seen)
    (hLimited : LimitedPass ctx (n :: ns) tokenLeft seen) {turns' : List Turn}
    (h : Spends secondPass ((n :: ns).map AppNode.ptr) tokenLeft s₁ turns' tokenLeft' s') :
    BothPasses ctx (n :: ns) seen turns' s₁ s' := by
  rcases hPass.ended with rfl | rfl
  · have hSecond := secondPass_topUp hc.apart hPass.offered h
    rw [hLimited.left] at hSecond
    exact ⟨topUp_first _ _, hSecond.pos, hSecond.quotas, hSecond.others⟩
  · -- nothing was left and no one was limited: the first node ends the second pass at once
    have hNone : ctx.leftBy (n :: ns) = 0 := hLimited.left.symm
    have hTaken := hLimited.taken
    have hExcess := hLimited.excess
    rw [hNone, Nat.add_zero] at hTaken
    rw [hTaken, excesses_cons] at hExcess
    have hSplit := (ctx.slotOf n).accepted_add_excess
    have hWhole : (ctx.slotOf n).accept ((ctx.slotOf n).offer + 0) = (ctx.slotOf n).offer + 0 := by
      rw [Nat.add_zero]
      exact (show (ctx.slotOf n).accepted = (ctx.slotOf n).offer by omega)
    have hDealt : ctx.dealtBy (n :: ns) = [(n, (ctx.quotaOf n).toNat)] := by
      rw [dealtBy, hNone, topUp_whole (ctx.quotaOf n).isLt hWhole]
      rfl
    obtain ⟨seen, rfl, -⟩ := hPass.starts
    have hUnder : n.newQuotaUnderLimit (ctx.quotaOf n + 0) = ctx.quotaOf n + 0 := by
      refine BitVec.eq_of_toNat_eq ?_
      rw [add_zero, n.toNat_underLimit ctx.quotaOf]
      exact hWhole
    obtain ⟨rfl, -, -, hOffered, hOther⟩ :=
      secondPass_whole (hPass.offered n List.mem_cons_self) hUnder h
    have hQuota := hOffered.quotaNew
    rw [show n.newQuota ctx.updateTokenLeftBase ctx.updateWeight = ctx.quotaOf n from rfl, hUnder,
      add_zero] at hQuota
    constructor
    · rw [hDealt]
      exact ⟨seen, rfl⟩
    · rw [hDealt]
      rfl
    · rw [hDealt]
      simp [hQuota]
    · rw [hDealt]
      simpa using hOther

/-- The nodes assigned are those that the first pass gets to. -/
theorem BothPasses.assigned_eq (hc : LimitedContext ctx s ns)
    (hPass : FirstPass ctx.updateTokenLeftBase ctx.updateWeight ctx.updateTokenLeftBase s ns turns
      tokenLeft s₁ seen) {turns' : List Turn} (hBoth : BothPasses ctx ns seen turns' s₁ s') :
    (ns.filter fun n => n.ptr ∈ turns.map Turn.pos ++ turns'.map Turn.pos) = seen := by
  refine filter_ptr_eq hc.apart hPass.first fun x => ?_
  rw [List.mem_append, hPass.pos, hBoth.pos]
  refine ⟨fun hx => hx.elim id fun hDealt => ?_, Or.inl⟩
  refine (hBoth.first.sublist.map AppNode.ptr).subset ?_
  rwa [List.map_map]

/-- What the nodes accepted, with what their bases make up. -/
theorem takenOf_add_bases (hOffers : ∀ n ∈ seen, FirstOffer ctx n) :
    ctx.takenOf seen + (seen.map fun n => n.updatenode.tokenBase.toNat).sum =
      (seen.map fun n => (ctx.slotOf n).accepted).sum := by
  rw [takenOf, ← List.sum_map_add]
  refine congrArg List.sum (List.map_congr_left fun n hn => ?_)
  exact Nat.sub_add_cancel (hOffers n hn).base_le

/-- What the nodes that were assigned are promised in the end: what was dealt in
the second pass, and what the others took in the first. -/
theorem BothPasses.promised (hc : LimitedContext ctx s ns)
    (hPass : FirstPass ctx.updateTokenLeftBase ctx.updateWeight ctx.updateTokenLeftBase s ns turns
      tokenLeft s₁ seen) {turns' : List Turn} (hBoth : BothPasses ctx ns seen turns' s₁ s') :
    (seen.map fun n => (s'.quotaNew n.ptr).toNat).sum +
        acceptedBefore ctx.slotOf (ctx.dealtBy ns) =
      (seen.map fun n => (ctx.slotOf n).accepted).sum + accepts (ctx.dealtBy ns) := by
  obtain ⟨rest, hRest⟩ := hBoth.first
  have hApart := (hPass.first.sublist.map AppNode.ptr).nodup hc.apart
  rw [← hRest, List.map_append, List.nodup_append] at hApart
  have hDealt : ((ctx.dealtBy ns).map Prod.fst).map (fun n => (s'.quotaNew n.ptr).toNat) =
      (ctx.dealtBy ns).map (·.2) := by
    rw [List.map_map]
    exact List.map_congr_left hBoth.quotas
  have hOthers : rest.map (fun n => (s'.quotaNew n.ptr).toNat) =
      rest.map fun n => (ctx.slotOf n).accepted := by
    refine List.map_congr_left fun n hn => ?_
    have hMem : n ∈ seen := hRest ▸ List.mem_append_right _ hn
    have hNot : n.ptr ∉ (ctx.dealtBy ns).map (·.1.ptr) := by
      intro hIn
      refine hApart.2.2 n.ptr ?_ n.ptr (List.mem_map_of_mem hn) rfl
      rwa [List.map_map]
    rw [AppNodes.quotaNew, hBoth.others _ hNot]
    have hQuota := congrArg BitVec.toNat (hPass.offered n hMem).quotaNew
    rw [AppNodes.quotaNew, n.toNat_underLimit ctx.quotaOf] at hQuota
    exact hQuota
  rw [← hRest, List.map_append, List.map_append, List.sum_append, List.sum_append, hDealt, hOthers,
    accepts, acceptedBefore, List.map_map]
  simp only [Function.comp_def]
  omega

/-- No node that was assigned is promised more than its limit. -/
theorem BothPasses.within_limit (hc : LimitedContext ctx s ns)
    (hPass : FirstPass ctx.updateTokenLeftBase ctx.updateWeight ctx.updateTokenLeftBase s ns turns
      tokenLeft s₁ seen) {turns' : List Turn} (hBoth : BothPasses ctx ns seen turns' s₁ s')
    (hn : n ∈ seen) (hMax : n.limit.max ≠ 0) : s'.quotaNew n.ptr ≤ n.limit.max := by
  by_cases hIn : n.ptr ∈ (ctx.dealtBy ns).map (·.1.ptr)
  · obtain ⟨d, hd, hPtr⟩ := List.mem_map.mp hIn
    have hFirst : d.1 ∈ ns :=
      hPass.first.sublist.subset (hBoth.first.sublist.subset (List.mem_map_of_mem hd))
    have hSame : d.1 = n := List.inj_on_of_nodup_map hc.apart hFirst
      (hPass.first.sublist.subset hn) hPtr
    rw [BitVec.le_def, ← hPtr, hBoth.quotas d hd, ← hSame]
    rw [← hSame] at hMax
    exact topUp_capped ns _ d hd _ (if_neg hMax)
  · rw [AppNodes.quotaNew, hBoth.others _ hIn]
    have hQuota := (hPass.offered n hn).quotaNew
    rw [AppNodes.quotaNew] at hQuota
    rw [hQuota, AppNode.newQuotaUnderLimit, if_pos (by bv_omega)]
    exact ULong.cmin_le_left _ _

/-- **Limits create no tokens** in exactly these cases: the nodes up to the first
that its limit kept from its offer have room for all that the first pass left;
or all nodes together have no more room than that; or an offer of the second
pass wraps. No node that is assigned ever exceeds its limit. -/
theorem caps_create_no_tokens_iff {assigned : List AppNodePtr} (hc : LimitedContext ctx s ns)
    (h : ctx.update s setQuotaNew = some (ctx', s', assigned)) :
    NoTokensCreated ctx s' assigned ns ↔ TakenFirst ctx.slotOf ns (ctx.leftBy ns) ∨
      rooms ctx.slotOf ns ≤ ctx.leftBy ns ∨ Overflows ctx.slotOf (2 ^ 64) ns (ctx.leftBy ns) := by
  obtain _ | ⟨n, ns⟩ := ns
  · have hNone := hc.weight ▸ hc.positive
    simp at hNone
  rw [update_eq_updateTurns] at h
  obtain ⟨⟨ctx₁, s₂, tokenLeft', turns, turns'⟩, hTurns, heq⟩ := Option.map_eq_some_iff.mp h
  obtain ⟨-, rfl, rfl⟩ := by simpa only [Prod.mk.injEq] using heq
  obtain ⟨-, s₁, tokenLeft, hSpends, hSecond⟩ := updateTurns_spends hTurns
  rw [hc.lead] at hSpends hSecond
  obtain ⟨seen, hPass⟩ := FirstPass.of_spends hc.toPlaced hSpends
  have hLimited := LimitedPass.of_firstPass hc hSpends hPass
  have hBoth := BothPasses.of_spends hc hPass hLimited hSecond
  have hAssigned := hBoth.assigned_eq hc hPass
  have hSeenOffers : ∀ n' ∈ seen, FirstOffer ctx n' :=
    fun n' hn' => hLimited.offers n' (hPass.first.sublist.subset hn')
  have hLimits : ∀ n' ∈ n :: ns, n'.ptr ∈ turns.map Turn.pos ++ turns'.map Turn.pos →
      n'.limit.max ≠ 0 → s₂.quotaNew n'.ptr ≤ n'.limit.max := by
    intro n' hn' hIn hMax
    refine hBoth.within_limit hc hPass ?_ hMax
    rw [← hAssigned]
    exact List.mem_filter.mpr ⟨hn', by simpa using hIn⟩
  have hWithin := topUp_within_iff ctx.slotOf (2 ^ 64) (n :: ns) (ctx.leftBy (n :: ns))
    (fun n' _ => (ctx.quotaOf n').isLt)
    (hLimited.left ▸ tokenLeft.isLt) (by
      have hExcess := hLimited.excess
      have hPool := ctx.tokenTotal.isLt
      omega)
  have hPromised := hBoth.promised hc hPass
  have hBases := takenOf_add_bases hSeenOffers
  have hReached := hLimited.reached
  have hTaken := hLimited.taken
  have hNat := BitVec.le_def.mp hc.nat
  rw [← hWithin, NoTokensCreated, and_iff_left hLimits, beyondBases, hAssigned, sum_sub_eq]
  rw [show (topUp ctx.slotOf (2 ^ 64) (n :: ns) (ctx.leftBy (n :: ns))).1 = ctx.dealtBy (n :: ns)
    from rfl]
  omega

section OneLimited

/-- Two nodes of weight 1, the first with a limit. -/
def limitedNode (max : ULong) : AppNode := { weighedNode 1 1 with limit := ⟨10, max⟩ }

def limitedNodes (max : ULong) : AppNodes := ⟨[limitedNode max, weighedNode 2 1], ⟨[]⟩⟩

/-- The node with the limit was collected last. -/
def limitLastCtx : TokenUpdateCtx := { weighedCtx 1 with lheadUpdateNode := [2, 1] }

theorem limitedNodes_limitedContext :
    LimitedContext (weighedCtx 1) (limitedNodes 10) [limitedNode 10, weighedNode 2 1] ∧
      LimitedContext limitLastCtx (limitedNodes 15) [weighedNode 2 1, limitedNode 15] := by
  refine ⟨⟨⟨?_, ?_⟩, ?_, ?_, ?_, ?_, ?_, ?_, ?_⟩, ⟨⟨?_, ?_⟩, ?_, ?_, ?_, ?_, ?_, ?_, ?_⟩⟩ <;> decide

/-- A limit of 15 keeps node 1 from its offer of 20, and node 2, which the second
pass comes to first, takes the 5. -/
theorem no_tokens_created_limit_last : ∃ ctx' s' assigned,
    limitLastCtx.update (limitedNodes 15) setQuotaNew = some (ctx', s', assigned) ∧
      s'.quotaNew 1 = 15 ∧ s'.quotaNew 2 = 25 ∧
        NoTokensCreated limitLastCtx s' assigned [weighedNode 2 1, limitedNode 15] := by
  have hOut : (limitLastCtx.update (limitedNodes 15) setQuotaNew).map
      (fun res => (res.2.1.quotaNew 1, res.2.1.quotaNew 2)) = some (15, 25) := by decide
  obtain ⟨⟨ctx', s', assigned⟩, hUpdate, hQuotas⟩ := Option.map_eq_some_iff.mp hOut
  obtain ⟨hFirst, hSecond⟩ := Prod.mk.inj hQuotas
  refine ⟨ctx', s', assigned, hUpdate, hFirst, hSecond,
    (caps_create_no_tokens_iff limitedNodes_limitedContext.2 hUpdate).mpr (Or.inl ?_)⟩
  exact ⟨[weighedNode 2 1], ⟨[limitedNode 15], rfl⟩, List.cons_ne_nil _ _, by decide, le_top⟩

/-- A limit of 10 keeps node 1 from its share of the 20, and node 2 gets 30 beyond
its base. -/
theorem capped_node_creates_tokens :
    ¬ ∀ (ctx ctx' : TokenUpdateCtx) (s s' : AppNodes) (ns : List AppNode)
      (assigned : List AppNodePtr), LimitedContext ctx s ns →
      ctx.update s setQuotaNew = some (ctx', s', assigned) →
      NoTokensCreated ctx s' assigned ns := by
  intro hAlways
  have hOut : ((weighedCtx 1).update (limitedNodes 10) setQuotaNew).map
      (fun res => beyondBases res.2.1 res.2.2 [limitedNode 10, weighedNode 2 1]) = some 30 := by
    decide
  obtain ⟨⟨ctx', s', assigned⟩, hUpdate, hBeyond⟩ := Option.map_eq_some_iff.mp hOut
  have hWithin := (hAlways _ ctx' _ s' _ assigned limitedNodes_limitedContext.1 hUpdate).1
  rw [hBeyond] at hWithin
  revert hWithin
  decide

end OneLimited

end DatastorQos
