import DatastorQos.Dispatcher.TokenUpdate
import DatastorQos.Lib.Apportion
import DatastorQos.Lib.TopUp

/-!
# datastor_qos — the two passes of a rebalance, turn by turn

Both loops of `update` go over the nodes in turns, and what a turn returns comes
off `token_left`.

* `update_eq_updateTurns` — `update`, with a record of its turns;
* `Spends.no_wrap` — turns that return no more than there is never take
  `token_left` below zero;
* `FirstPass.of_spends`, `secondPass_topUp` — which quota each node is offered,
  and what it takes under its limit: in the second pass a remainder goes from
  node to node.
-/

namespace DatastorQos

open Apportion TopUp TokenUpdateCtx AppNodes

/-- One turn of a pass: the node, `token_left` before it, and what it returned. -/
structure Turn where
  pos       : AppNodePtr
  tokenLeft : ULong
  used      : ULong
  deriving DecidableEq, Repr

/-- What a pass does with a node: `update_node_quota` or `update_node_quota_left`. -/
abbrev UpdateNodeFunc := AppNodes → ULong → AppNodePtr → Option (AppNodes × ULong)

/-- `update_node_quota`, as the first pass calls it. -/
abbrev firstPass (tokenTotal totalWeight : ULong) : UpdateNodeFunc :=
  fun s _ pos => updateNodeQuota setQuotaNew tokenTotal totalWeight s pos

/-- `update_node_quota_left`, as the second pass calls it. -/
abbrev secondPass : UpdateNodeFunc :=
  fun s tokenLeft pos => updateNodeQuotaLeft setQuotaNew tokenLeft s pos

namespace TokenUpdateCtx

/-- `spend`, with its turns. -/
def spendTurns (updateNode : UpdateNodeFunc) :
    List AppNodePtr → ULong → AppNodes → Option (AppNodes × ULong × List Turn)
  | [], tokenLeft, s => some (s, tokenLeft, [])
  | pos :: rest, tokenLeft, s => do
    let (s, used) ← updateNode s tokenLeft pos
    if tokenLeft - used = 0 then
      return (s, tokenLeft - used, [⟨pos, tokenLeft, used⟩])
    else
      let (s, left, turns) ← spendTurns updateNode rest (tokenLeft - used) s
      return (s, left, ⟨pos, tokenLeft, used⟩ :: turns)

/-- `update`, with the turns of both passes and what is left at the end. -/
def updateTurns (ctx : TokenUpdateCtx) (s : AppNodes) :
    Option (TokenUpdateCtx × AppNodes × ULong × List Turn × List Turn) := do
  let (s, tokenLeft, turns) ← spendTurns (firstPass ctx.updateTokenLeftBase ctx.updateWeight)
    ctx.lheadUpdateNode ctx.updateTokenLeftBase s
  let (s, tokenLeft, turns') ← spendTurns secondPass ctx.lheadUpdateNode tokenLeft s
  return (init, s, tokenLeft, turns, turns')

variable {updateNode : UpdateNodeFunc} {ctx : TokenUpdateCtx} {s s' : AppNodes}

theorem spend_eq_spendTurns (ptrs : List AppNodePtr) (tokenLeft : ULong) (s : AppNodes) :
    spend updateNode ptrs tokenLeft s =
      (spendTurns updateNode ptrs tokenLeft s).map fun r => (r.1, r.2.1, r.2.2.map Turn.pos) := by
  induction ptrs generalizing tokenLeft s with
  | nil => rfl
  | cons pos rest ih =>
    simp only [spend, spendTurns, Option.bind_eq_bind]
    cases updateNode s tokenLeft pos with
    | none => rfl
    | some r =>
      simp only [Option.bind_some]
      split
      · rfl
      · rw [ih]
        cases spendTurns updateNode rest (tokenLeft - r.2) r.1 <;> rfl

/-- The turns are those of `update`. -/
theorem update_eq_updateTurns (ctx : TokenUpdateCtx) (s : AppNodes) :
    ctx.update s setQuotaNew = (ctx.updateTurns s).map fun r =>
      (r.1, r.2.1, r.2.2.2.1.map Turn.pos ++ r.2.2.2.2.map Turn.pos) := by
  unfold update updateTurns
  simp only [Option.bind_eq_bind, spend_eq_spendTurns]
  cases spendTurns (firstPass ctx.updateTokenLeftBase ctx.updateWeight) ctx.lheadUpdateNode
      ctx.updateTokenLeftBase s with
  | none => rfl
  | some r =>
    simp only [Option.map_some, Option.bind_some]
    cases spendTurns secondPass ctx.lheadUpdateNode r.2.1 r.1 <;> rfl

end TokenUpdateCtx

-- ---------------------------------------------------------------------------
-- Turns
-- ---------------------------------------------------------------------------

/-- The turns of a pass, one after the other. -/
inductive Spends (updateNode : UpdateNodeFunc) :
    List AppNodePtr → ULong → AppNodes → List Turn → ULong → AppNodes → Prop where
  | done {tokenLeft s} : Spends updateNode [] tokenLeft s [] tokenLeft s
  | last {pos rest tokenLeft used s s'} :
      updateNode s tokenLeft pos = some (s', used) → tokenLeft - used = 0 →
      Spends updateNode (pos :: rest) tokenLeft s [⟨pos, tokenLeft, used⟩] 0 s'
  | more {pos rest tokenLeft used s s₁ turns tokenLeft' s'} :
      updateNode s tokenLeft pos = some (s₁, used) → tokenLeft - used ≠ 0 →
      Spends updateNode rest (tokenLeft - used) s₁ turns tokenLeft' s' →
      Spends updateNode (pos :: rest) tokenLeft s (⟨pos, tokenLeft, used⟩ :: turns) tokenLeft' s'

variable {updateNode : UpdateNodeFunc} {ctx : TokenUpdateCtx} {s s' : AppNodes}
  {ptrs : List AppNodePtr} {tokenLeft tokenLeft' : ULong} {turns : List Turn}

theorem spends_of_spendTurns
    (h : spendTurns updateNode ptrs tokenLeft s = some (s', tokenLeft', turns)) :
    Spends updateNode ptrs tokenLeft s turns tokenLeft' s' := by
  induction ptrs generalizing tokenLeft s turns with
  | nil =>
    obtain ⟨rfl, rfl, rfl⟩ := by simpa only [spendTurns, Option.some.injEq, Prod.mk.injEq] using h
    exact .done
  | cons pos rest ih =>
    obtain ⟨⟨s₁, used⟩, hNode, h⟩ := Option.bind_eq_some_iff.mp h
    simp only at h
    split at h
    · rename_i hZero
      simp only [Option.pure_def, Option.some.injEq, Prod.mk.injEq] at h
      obtain ⟨rfl, rfl, rfl⟩ := h
      exact hZero ▸ .last hNode hZero
    · rename_i hLeft
      obtain ⟨⟨s₂, left, turns'⟩, hRest, h⟩ := Option.bind_eq_some_iff.mp h
      simp only [Option.pure_def, Option.some.injEq, Prod.mk.injEq] at h
      obtain ⟨rfl, rfl, rfl⟩ := h
      exact .more hNode hLeft (ih hRest)

/-- The turns of the two passes of `update`. -/
theorem updateTurns_spends {ctx' : TokenUpdateCtx} {turns' : List Turn}
    (h : ctx.updateTurns s = some (ctx', s', tokenLeft', turns, turns')) :
    ctx' = init ∧ ∃ s₁ tokenLeft,
      Spends (firstPass ctx.updateTokenLeftBase ctx.updateWeight) ctx.lheadUpdateNode
        ctx.updateTokenLeftBase s turns tokenLeft s₁ ∧
      Spends secondPass ctx.lheadUpdateNode tokenLeft s₁ turns' tokenLeft' s' := by
  obtain ⟨⟨s₁, tokenLeft, turns⟩, hFirst, h⟩ := Option.bind_eq_some_iff.mp h
  obtain ⟨⟨s₂, left, turns'⟩, hSecond, h⟩ := Option.bind_eq_some_iff.mp h
  simp only [Option.pure_def, Option.some.injEq, Prod.mk.injEq] at h
  obtain ⟨rfl, rfl, rfl, rfl, rfl⟩ := h
  exact ⟨rfl, s₁, tokenLeft, spends_of_spendTurns hFirst, spends_of_spendTurns hSecond⟩

namespace Spends

/-- What the turns return comes off. -/
theorem left_eq (h : Spends updateNode ptrs tokenLeft s turns tokenLeft' s') :
    tokenLeft' = tokenLeft - (turns.map Turn.used).sum := by
  induction h with
  | done => simp
  | last _ hZero => simp [hZero]
  | more _ _ _ ih => rw [ih, List.map_cons, List.sum_cons, BitVec.sub_sub]

/-- Turns that return no more than there is, all together, return no more than is
left to each of them. -/
theorem no_wrap (h : Spends updateNode ptrs tokenLeft s turns tokenLeft' s')
    (hSum : total Turn.used turns ≤ tokenLeft.toNat) :
    (∀ turn ∈ turns, turn.used ≤ turn.tokenLeft) ∧
      tokenLeft'.toNat + total Turn.used turns = tokenLeft.toNat := by
  induction h with
  | done => simp
  | last _ hZero =>
    simp only [total_cons, total_nil, Nat.add_zero] at hSum ⊢
    refine ⟨by simpa using BitVec.le_def.mpr hSum, ?_⟩
    rw [sub_eq_zero.mp hZero]
    simp
  | @more _ _ tokenLeft used _ _ _ _ _ _ _ _ ih =>
    simp only [total_cons] at hSum ⊢
    have hUsed : used ≤ tokenLeft := BitVec.le_def.mpr (by omega)
    have hNat := BitVec.toNat_sub_of_le hUsed
    obtain ⟨hRest, hLeft⟩ := ih (by omega)
    exact ⟨List.forall_mem_cons.mpr ⟨hUsed, hRest⟩, by omega⟩

end Spends

-- ---------------------------------------------------------------------------
-- What a node is offered
-- ---------------------------------------------------------------------------

/-- The share of a node in the first pass, -/
def AppNode.newShare (tokenTotal totalWeight : ULong) (n : AppNode) : ULong :=
  tokenTotal * n.updatenode.weight / totalWeight

/-- and its quota after it. -/
def AppNode.newQuota (tokenTotal totalWeight : ULong) (n : AppNode) : ULong :=
  n.newShare tokenTotal totalWeight + n.updatenode.tokenBase

/-- The node after it was offered a quota: `tmp_token_quota` keeps the offer, and
its limit applies to the target. -/
def AppNode.offered (n : AppNode) (quota : ULong) (version : Int) : AppNode :=
  { n with
    updatenode    := { n.updatenode with tmpTokenQuota := quota }
    tokenQuotaNew := n.newQuotaUnderLimit quota
    version       := version }

/-- The node was offered the quota. -/
def Offered (s : AppNodes) (n : AppNode) (quota : ULong) : Prop :=
  ∃ version, s.node? n.ptr = some (n.offered quota version)

/-- The minimum of the node is within what it is offered, and within its limit. -/
def AppNode.Covers (n : AppNode) (quota : ULong) : Prop :=
  n.limit.min ≤ quota ∧ n.limit.min ≤ n.newQuotaUnderLimit quota

/-- The quota a rebalance has promised the node at an address. -/
def AppNodes.quotaNew (s : AppNodes) (ptr : AppNodePtr) : ULong :=
  match s.node? ptr with
  | some node => node.tokenQuotaNew
  | none => 0

variable {n : AppNode} {ns : List AppNode} {tokenTotal totalWeight quota quota' : ULong}

theorem Offered.quotaNew (h : Offered s n quota) :
    s.quotaNew n.ptr = n.newQuotaUnderLimit quota := by
  obtain ⟨version, hn⟩ := h
  rw [AppNodes.quotaNew, hn]
  rfl

/-- A node is offered a quota that covers its minimum, and takes it under its
limit. -/
theorem setTmp_offered (hn : s.node? n.ptr = some n)
    (h : (s.setNode (n.setTmpTokenQuota quota)).setQuotaNew quota n.ptr = some (s', quota')) :
    n.Covers quota ∧ quota' = n.newQuotaUnderLimit quota ∧ Offered s' n quota ∧
      ∀ x, x ≠ n.ptr → s'.node? x = s.node? x := by
  obtain ⟨n₁, version, hn₁, hMin, hQuota, hMin', hLook⟩ := setQuotaNew_eq h
  have hTmp : ∀ x, (s.setNode (n.setTmpTokenQuota quota)).node? x =
      if x = n.ptr then some (n.setTmpTokenQuota quota) else s.node? x :=
    fun x => node?_setNode (n.setTmpTokenQuota quota) (Option.isSome_of_eq_some hn)
  rw [hTmp, if_pos rfl] at hn₁
  obtain rfl := Option.some.inj hn₁
  subst hQuota
  refine ⟨⟨hMin, hMin'⟩, rfl, ⟨version, ?_⟩, fun x hx => ?_⟩
  · rw [hLook, if_pos rfl]
    rfl
  · rw [hLook, if_neg hx, hTmp, if_neg hx]

theorem setTmp_completes (hn : s.node? n.ptr = some n) (hCovers : n.Covers quota) :
    ((s.setNode (n.setTmpTokenQuota quota)).setQuotaNew quota n.ptr).isSome := by
  have hTmp : (s.setNode (n.setTmpTokenQuota quota)).node? n.ptr =
      some (n.setTmpTokenQuota quota) :=
    (node?_setNode (n.setTmpTokenQuota quota) (Option.isSome_of_eq_some hn)).trans (if_pos rfl)
  unfold setQuotaNew AppNode.updateTokenQuotaNew
  rw [hTmp, Option.bind_eq_bind, Option.bind_some, if_pos (by exact hCovers)]
  rfl

-- ---------------------------------------------------------------------------
-- The first pass
-- ---------------------------------------------------------------------------

/-- What a node takes of its share, under its limit. -/
def AppNode.takes (tokenTotal totalWeight : ULong) (n : AppNode) : ULong :=
  n.newQuotaUnderLimit (n.newQuota tokenTotal totalWeight) - n.updatenode.tokenBase

/-- Nodes at their addresses. -/
structure Placed (s : AppNodes) (ns : List AppNode) : Prop where
  found : ∀ n ∈ ns, s.node? n.ptr = some n
  apart : (ns.map AppNode.ptr).Nodup

theorem Placed.head_not_mem (hp : Placed s (n :: ns)) {n' : AppNode} (hn' : n' ∈ ns) :
    n'.ptr ≠ n.ptr := fun heq =>
  (List.nodup_cons.mp hp.apart).1 (heq ▸ List.mem_map_of_mem hn')

theorem Placed.tail (hp : Placed s (n :: ns)) (hOther : ∀ x, x ≠ n.ptr → s'.node? x = s.node? x) :
    Placed s' ns where
  found n' hn' := by
    rw [hOther _ (hp.head_not_mem hn')]
    exact hp.found n' (List.mem_cons_of_mem _ hn')
  apart := (List.nodup_cons.mp hp.apart).2

/-- The first visit of a node. -/
theorem updateNodeQuota_offered {used : ULong} (hn : s.node? n.ptr = some n)
    (h : updateNodeQuota setQuotaNew tokenTotal totalWeight s n.ptr = some (s', used)) :
    0 < totalWeight ∧ n.Covers (n.newQuota tokenTotal totalWeight) ∧
      used = n.takes tokenTotal totalWeight ∧ Offered s' n (n.newQuota tokenTotal totalWeight) ∧
      ∀ x, x ≠ n.ptr → s'.node? x = s.node? x := by
  unfold updateNodeQuota at h
  simp only [hn, Option.bind_eq_bind, Option.bind_some] at h
  split at h
  · rename_i hWeight
    obtain ⟨⟨s₁, quota⟩, hSet, h⟩ := Option.bind_eq_some_iff.mp h
    obtain ⟨rfl, rfl⟩ := by simpa only [Option.pure_def, Option.some.injEq, Prod.mk.injEq] using h
    obtain ⟨hCovers, rfl, hOffered, hOther⟩ := setTmp_offered hn hSet
    exact ⟨hWeight, hCovers, rfl, hOffered, hOther⟩
  · cases h

theorem updateNodeQuota_completes (hn : s.node? n.ptr = some n) (hWeight : 0 < totalWeight)
    (hCovers : n.Covers (n.newQuota tokenTotal totalWeight)) :
    (updateNodeQuota setQuotaNew tokenTotal totalWeight s n.ptr).isSome := by
  obtain ⟨⟨s₁, quota⟩, hSet⟩ := Option.isSome_iff_exists.mp (setTmp_completes hn hCovers)
  unfold updateNodeQuota
  simp only [hn, Option.bind_eq_bind, Option.bind_some, gt_iff_lt, if_pos hWeight]
  rw [show tokenTotal * n.updatenode.weight / totalWeight + n.updatenode.tokenBase =
    n.newQuota tokenTotal totalWeight from rfl, hSet]
  rfl

/-- How far the first pass got: the nodes `seen` were offered their quotas, and
either that was all of them or nothing is left. -/
structure FirstPass (tokenTotal totalWeight tokenLeft : ULong) (s : AppNodes) (ns : List AppNode)
    (turns : List Turn) (tokenLeft' : ULong) (s' : AppNodes) (seen : List AppNode) : Prop where
  first   : seen <+: ns
  some_   : ns ≠ [] → seen ≠ []
  ended   : seen = ns ∨ tokenLeft' = 0
  unspent : ∀ part, part <+: seen → part ≠ [] → part ≠ seen →
    tokenLeft - (part.map (AppNode.takes tokenTotal totalWeight)).sum ≠ 0
  covers  : ∀ n ∈ seen, n.Covers (n.newQuota tokenTotal totalWeight)
  offered : ∀ n ∈ seen, Offered s' n (n.newQuota tokenTotal totalWeight)
  others  : ∀ x, x ∉ seen.map AppNode.ptr → s'.node? x = s.node? x
  pos     : turns.map Turn.pos = seen.map AppNode.ptr
  used    : turns.map Turn.used = seen.map (AppNode.takes tokenTotal totalWeight)

/-- The nodes it got to start with the first. -/
theorem FirstPass.starts {seen : List AppNode}
    (hPass : FirstPass tokenTotal totalWeight tokenLeft s (n :: ns) turns tokenLeft' s' seen) :
    ∃ rest, seen = n :: rest ∧ rest <+: ns :=
  (List.prefix_cons_iff.mp hPass.first).resolve_left (hPass.some_ (List.cons_ne_nil n ns))

/-- What its turns return, in numbers. -/
theorem FirstPass.total_used {seen : List AppNode}
    (hPass : FirstPass tokenTotal totalWeight tokenLeft s ns turns tokenLeft' s' seen) :
    total Turn.used turns = total (AppNode.takes tokenTotal totalWeight) seen := by
  have hSums := congrArg (fun l : List ULong => (l.map BitVec.toNat).sum) hPass.used
  simp only [List.map_map] at hSums
  exact hSums

theorem FirstPass.of_spends (hp : Placed s ns)
    (h : Spends (firstPass tokenTotal totalWeight) (ns.map AppNode.ptr) tokenLeft s turns
      tokenLeft' s') :
    ∃ seen, FirstPass tokenTotal totalWeight tokenLeft s ns turns tokenLeft' s' seen := by
  induction ns generalizing s tokenLeft turns with
  | nil =>
    cases h
    exact ⟨[], by constructor <;> simp⟩
  | cons n ns ih =>
    have hn := hp.found n List.mem_cons_self
    cases h with
    | last hNode hZero =>
      obtain ⟨-, hCovers, hUsed, hOffered, hOther⟩ := updateNodeQuota_offered hn hNode
      exact ⟨[n], {
        first   := ⟨ns, rfl⟩
        some_   := by simp
        ended   := Or.inr rfl
        unspent := fun part hPart hNe hNot => by
          obtain ⟨part, rfl, hNil⟩ := (List.prefix_cons_iff.mp hPart).resolve_left hNe
          exact absurd (by rw [List.prefix_nil.mp hNil]) hNot
        covers  := by simpa using hCovers
        offered := by simpa using hOffered
        others  := by simpa using hOther
        pos     := rfl
        used    := by simpa using hUsed }⟩
    | more hNode hLeft hRest =>
      obtain ⟨-, hCovers, hUsed, hOffered, hOther⟩ := updateNodeQuota_offered hn hNode
      obtain ⟨seen, hPass⟩ := ih (hp.tail hOther) hRest
      have hNot : n.ptr ∉ seen.map AppNode.ptr := fun hMem =>
        (List.nodup_cons.mp hp.apart).1 ((hPass.first.sublist.map _).subset hMem)
      refine ⟨n :: seen, {
        first   := (List.prefix_cons_inj n).mpr hPass.first
        some_   := by simp
        ended   := hPass.ended.imp_left fun heq => by rw [heq]
        unspent := fun part hPart hNe hNot => ?_
        covers  := List.forall_mem_cons.mpr ⟨hCovers, hPass.covers⟩
        offered := List.forall_mem_cons.mpr ⟨?_, hPass.offered⟩
        others  := fun x hx => ?_
        pos     := by rw [List.map_cons, hPass.pos, List.map_cons]
        used    := by rw [List.map_cons, hPass.used, hUsed, List.map_cons] }⟩
      · obtain ⟨part, rfl, hPart'⟩ := (List.prefix_cons_iff.mp hPart).resolve_left hNe
        rw [List.map_cons, List.sum_cons, ← BitVec.sub_sub, ← hUsed]
        by_cases hNil : part = []
        · subst hNil
          simpa using hLeft
        · exact hPass.unspent part hPart' hNil fun heq => hNot (by rw [heq])
      · obtain ⟨version, hNode'⟩ := hOffered
        exact ⟨version, (hPass.others _ hNot).trans hNode'⟩
      · rw [List.map_cons, List.mem_cons, not_or] at hx
        exact (hPass.others x hx.2).trans (hOther x hx.1)

/-- The first pass gets past the nodes `before`: something is left behind each of
them. -/
def Unspent (tokenTotal totalWeight tokenLeft : ULong) (before : List AppNode) : Prop :=
  ∀ part, part <+: before → part ≠ [] →
    tokenLeft - (part.map (AppNode.takes tokenTotal totalWeight)).sum ≠ 0

theorem unspent_cons_iff {before : List AppNode} :
    Unspent tokenTotal totalWeight tokenLeft (n :: before) ↔
      tokenLeft - n.takes tokenTotal totalWeight ≠ 0 ∧
        Unspent tokenTotal totalWeight (tokenLeft - n.takes tokenTotal totalWeight) before := by
  have hPart : ∀ part : List AppNode,
      tokenLeft - ((n :: part).map (AppNode.takes tokenTotal totalWeight)).sum =
        tokenLeft - n.takes tokenTotal totalWeight -
          (part.map (AppNode.takes tokenTotal totalWeight)).sum := by
    intro part
    rw [List.map_cons, List.sum_cons, BitVec.sub_sub]
  constructor
  · intro h
    refine ⟨?_, fun part hPrefix hNe => ?_⟩
    · simpa using h [n] ⟨before, rfl⟩ (List.cons_ne_nil n [])
    · rw [← hPart]
      exact h (n :: part) ((List.prefix_cons_inj n).mpr hPrefix) (List.cons_ne_nil n part)
  · rintro ⟨hHead, hRest⟩ part hPrefix hNe
    obtain ⟨part, rfl, hPart'⟩ := (List.prefix_cons_iff.mp hPrefix).resolve_left hNe
    rw [hPart]
    by_cases hNil : part = []
    · subst hNil
      simpa using hHead
    · exact hRest part hPart' hNil

/-- The first pass comes to its end exactly if the total weight is above 0 and
every node that it gets to is offered what covers its minimum. -/
theorem firstPass_isSome_iff (hp : Placed s ns) :
    (spendTurns (firstPass tokenTotal totalWeight) (ns.map AppNode.ptr) tokenLeft s).isSome ↔
      ∀ before n, before ++ [n] <+: ns → Unspent tokenTotal totalWeight tokenLeft before →
        0 < totalWeight ∧ n.Covers (n.newQuota tokenTotal totalWeight) := by
  induction ns generalizing s tokenLeft with
  | nil => simp [spendTurns]
  | cons n ns ih =>
    have hn := hp.found n List.mem_cons_self
    simp only [List.map_cons, spendTurns, Option.bind_eq_bind, firstPass]
    constructor
    · intro hSome before n' hPrefix hUnspent
      obtain ⟨r, hr⟩ := Option.isSome_iff_exists.mp hSome
      obtain ⟨⟨s₁, used⟩, hNode, hRest⟩ := Option.bind_eq_some_iff.mp hr
      obtain ⟨hWeight, hCovers, rfl, -, hOther⟩ := updateNodeQuota_offered hn hNode
      cases before with
      | nil =>
        obtain ⟨rfl, -⟩ := List.cons_prefix_cons.mp hPrefix
        exact ⟨hWeight, hCovers⟩
      | cons b before =>
        obtain ⟨rfl, hPrefix'⟩ := List.cons_prefix_cons.mp hPrefix
        obtain ⟨hLeft, hUnspent⟩ := unspent_cons_iff.mp hUnspent
        simp only [if_neg hLeft] at hRest
        obtain ⟨r', hr', -⟩ := Option.bind_eq_some_iff.mp hRest
        exact (ih (hp.tail hOther)).mp (Option.isSome_of_eq_some hr') before n' hPrefix' hUnspent
    · intro hAll
      obtain ⟨hWeight, hCovers⟩ := hAll [] n ⟨ns, rfl⟩
        fun part hPart hNe => absurd (List.prefix_nil.mp hPart) hNe
      obtain ⟨⟨s₁, used⟩, hNode⟩ :=
        Option.isSome_iff_exists.mp (updateNodeQuota_completes hn hWeight hCovers)
      obtain ⟨-, -, rfl, -, hOther⟩ := updateNodeQuota_offered hn hNode
      rw [hNode, Option.bind_some]
      split
      · rfl
      · rename_i hLeft
        have hRest : (spendTurns (firstPass tokenTotal totalWeight) (ns.map AppNode.ptr)
            (tokenLeft - n.takes tokenTotal totalWeight) s₁).isSome :=
          (ih (hp.tail hOther)).mpr fun before n' hPrefix hUnspent =>
            hAll (n :: before) n' ((List.prefix_cons_inj n).mpr hPrefix)
              (unspent_cons_iff.mpr ⟨hLeft, hUnspent⟩)
        obtain ⟨r, hr⟩ := Option.isSome_iff_exists.mp hRest
        rw [hr]
        rfl

-- ---------------------------------------------------------------------------
-- The second pass
-- ---------------------------------------------------------------------------

/-- A node as a slot: its first offer, and its limit. -/
def AppNode.slot (quota : AppNode → ULong) (n : AppNode) : Slot where
  offer := (quota n).toNat
  cap   := if n.limit.max = 0 then none else some n.limit.max.toNat

theorem AppNode.toNat_underLimit (quota : AppNode → ULong) (n : AppNode) (offer : ULong) :
    (n.newQuotaUnderLimit offer).toNat = (n.slot quota).accept offer.toNat := by
  unfold newQuotaUnderLimit slot Slot.accept
  by_cases hMax : n.limit.max = 0
  · simp [hMax]
  · rw [if_pos (by bv_omega), ULong.toNat_cmin, if_neg hMax]

theorem AppNode.underLimit_le (n : AppNode) (offer : ULong) :
    n.newQuotaUnderLimit offer ≤ offer := by
  rw [BitVec.le_def, n.toNat_underLimit fun _ => 0]
  exact Slot.accept_le _ _

/-- The second visit of a node: it is offered what is left on top, and what it
does not take is left. -/
theorem updateNodeQuotaLeft_offered {used : ULong} (hOffered : Offered s n quota)
    (h : updateNodeQuotaLeft setQuotaNew tokenLeft s n.ptr = some (s', used)) :
    n.Covers (quota + tokenLeft) ∧
      tokenLeft - used = quota + tokenLeft - n.newQuotaUnderLimit (quota + tokenLeft) ∧
      Offered s' n (quota + tokenLeft) ∧ ∀ x, x ≠ n.ptr → s'.node? x = s.node? x := by
  obtain ⟨version, hn⟩ := hOffered
  unfold updateNodeQuotaLeft at h
  simp only [hn, Option.bind_eq_bind, Option.bind_some] at h
  obtain ⟨⟨s₁, quota'⟩, hSet, h⟩ := Option.bind_eq_some_iff.mp h
  obtain ⟨rfl, rfl⟩ := by simpa only [Option.pure_def, Option.some.injEq, Prod.mk.injEq] using h
  obtain ⟨hCovers, rfl, hOffered', hOther⟩ := setTmp_offered (n := n.offered quota version) hn hSet
  refine ⟨hCovers, ?_, hOffered', hOther⟩
  rw [show (n.offered quota version).updatenode.tmpTokenQuota = quota from rfl,
    show (n.offered quota version).newQuotaUnderLimit (quota + tokenLeft) =
      n.newQuotaUnderLimit (quota + tokenLeft) from rfl]
  bv_omega

theorem updateNodeQuotaLeft_completes (hOffered : Offered s n quota)
    (hCovers : n.Covers (quota + tokenLeft)) :
    (updateNodeQuotaLeft setQuotaNew tokenLeft s n.ptr).isSome := by
  obtain ⟨version, hn⟩ := hOffered
  have hSet : ((s.setNode
      ((n.offered quota version).setTmpTokenQuota (quota + tokenLeft))).setQuotaNew
        (quota + tokenLeft) (n.offered quota version).ptr).isSome := setTmp_completes hn hCovers
  obtain ⟨⟨s₁, quota'⟩, hSet⟩ := Option.isSome_iff_exists.mp hSet
  unfold updateNodeQuotaLeft
  simp only [hn, Option.bind_eq_bind, Option.bind_some]
  rw [show (n.offered quota version).updatenode.tmpTokenQuota = quota from rfl,
    show n.ptr = (n.offered quota version).ptr from rfl, hSet]
  rfl

/-- A node that takes its offer whole takes all that is left, and ends the pass. -/
theorem secondPass_whole {rest : List AppNodePtr} (hOffered : Offered s n quota)
    (hWhole : n.newQuotaUnderLimit (quota + tokenLeft) = quota + tokenLeft)
    (h : Spends secondPass (n.ptr :: rest) tokenLeft s turns tokenLeft' s') :
    turns = [⟨n.ptr, tokenLeft, tokenLeft⟩] ∧ tokenLeft' = 0 ∧ n.Covers (quota + tokenLeft) ∧
      Offered s' n (quota + tokenLeft) ∧ ∀ x, x ≠ n.ptr → s'.node? x = s.node? x := by
  cases h with
  | last hNode hZero =>
    obtain ⟨hCovers, -, hOffered', hOther⟩ := updateNodeQuotaLeft_offered hOffered hNode
    obtain rfl := sub_eq_zero.mp hZero
    exact ⟨rfl, rfl, hCovers, hOffered', hOther⟩
  | more hNode hNonzero =>
    obtain ⟨-, hLeft, -, -⟩ := updateNodeQuotaLeft_offered hOffered hNode
    rw [hWhole, sub_self] at hLeft
    exact absurd hLeft hNonzero

theorem secondPass_isSome_iff {rest : List AppNodePtr} (hOffered : Offered s n quota)
    (hMax : n.limit.max = 0) :
    (spendTurns secondPass (n.ptr :: rest) tokenLeft s).isSome ↔
      n.limit.min ≤ quota + tokenLeft := by
  constructor
  · intro hSome
    obtain ⟨⟨s', left, turns⟩, h⟩ := Option.isSome_iff_exists.mp hSome
    have hWhole := AppNode.newQuotaUnderLimit_uncapped hMax (quota + tokenLeft)
    exact (secondPass_whole hOffered hWhole (spends_of_spendTurns h)).2.2.1.1
  · intro hMin
    have hCovers : n.Covers (quota + tokenLeft) :=
      ⟨hMin, by rwa [AppNode.newQuotaUnderLimit_uncapped hMax]⟩
    obtain ⟨⟨s₁, used⟩, hNode⟩ :=
      Option.isSome_iff_exists.mp (updateNodeQuotaLeft_completes hOffered hCovers)
    obtain ⟨-, hLeft, -, -⟩ := updateNodeQuotaLeft_offered hOffered hNode
    rw [AppNode.newQuotaUnderLimit_uncapped hMax, sub_self] at hLeft
    simp only [spendTurns, secondPass, hNode, Option.bind_eq_bind, Option.bind_some, hLeft, if_true]
    rfl

/-- A turn of the second pass, in numbers. -/
theorem secondPass_turn {quota : AppNode → ULong} {used : ULong} (hOffered : Offered s n (quota n))
    (h : updateNodeQuotaLeft setQuotaNew tokenLeft s n.ptr = some (s', used)) :
    (tokenLeft - used).toNat = (quota n + tokenLeft).toNat -
        (n.slot quota).accept (quota n + tokenLeft).toNat ∧
      (s'.quotaNew n.ptr).toNat = (n.slot quota).accept (quota n + tokenLeft).toNat ∧
      n.limit.min.toNat ≤ (n.slot quota).accept (quota n + tokenLeft).toNat ∧
      ∀ x, x ≠ n.ptr → s'.node? x = s.node? x := by
  obtain ⟨hCovers, hLeft, hOffered', hOther⟩ := updateNodeQuotaLeft_offered hOffered h
  have hMin := BitVec.le_def.mp hCovers.2
  rw [n.toNat_underLimit quota] at hMin
  refine ⟨?_, ?_, hMin, hOther⟩
  · rw [hLeft, BitVec.toNat_sub_of_le (n.underLimit_le _), n.toNat_underLimit quota]
  · rw [hOffered'.quotaNew, n.toNat_underLimit quota]

/-- What the second pass comes to: `dealt` are the nodes served and their new
quotas. -/
structure SecondPass (s : AppNodes) (turns : List Turn) (tokenLeft' : ULong) (s' : AppNodes)
    (dealt : List (AppNode × ℕ)) (left : ℕ) : Prop where
  pos    : turns.map Turn.pos = dealt.map (·.1.ptr)
  left   : tokenLeft'.toNat = left
  quotas : ∀ d ∈ dealt, (s'.quotaNew d.1.ptr).toNat = d.2
  min_le : ∀ d ∈ dealt, d.1.limit.min.toNat ≤ d.2
  others : ∀ x, x ∉ dealt.map (·.1.ptr) → s'.node? x = s.node? x

/-- **The second pass** offers what is left to one node after the other, on top of
what they were offered in the first. -/
theorem secondPass_topUp {quota : AppNode → ULong} (hApart : (ns.map AppNode.ptr).Nodup)
    (hOffered : ∀ n ∈ ns, Offered s n (quota n))
    (h : Spends secondPass (ns.map AppNode.ptr) tokenLeft s turns tokenLeft' s') :
    SecondPass s turns tokenLeft' s' (topUp (AppNode.slot quota) (2 ^ 64) ns tokenLeft.toNat).1
      (topUp (AppNode.slot quota) (2 ^ 64) ns tokenLeft.toNat).2 := by
  induction ns generalizing s tokenLeft turns with
  | nil =>
    cases h
    constructor <;> simp
  | cons n ns ih =>
    obtain ⟨hNot, hApart⟩ := List.nodup_cons.mp hApart
    obtain ⟨hHead, hRest⟩ := List.forall_mem_cons.mp hOffered
    have hOffer : ((n.slot quota).offer + tokenLeft.toNat) % 2 ^ 64 =
        (quota n + tokenLeft).toNat := (BitVec.toNat_add _ _).symm
    cases h with
    | last hNode hZero =>
      obtain ⟨hLeft, hQuota, hMin, hOther⟩ := secondPass_turn hHead hNode
      have hNone : (quota n + tokenLeft).toNat -
          (n.slot quota).accept (quota n + tokenLeft).toNat = 0 := by
        rw [← hLeft, hZero]
        rfl
      simp only [topUp_cons, hOffer, hNone, if_true]
      exact ⟨rfl, rfl, by simpa using hQuota, by simpa using hMin, by simpa using hOther⟩
    | @more _ _ _ used _ s₁ turns _ _ hNode hNonzero hSpends =>
      obtain ⟨hLeft, hQuota, hMin, hOther⟩ := secondPass_turn hHead hNode
      have hPass := ih hApart (fun n' hn' => by
        obtain ⟨version, hn₁⟩ := hRest n' hn'
        have hne : n'.ptr ≠ n.ptr := fun heq => hNot (heq ▸ List.mem_map_of_mem hn')
        exact ⟨version, (hOther _ hne).trans hn₁⟩) hSpends
      have hSome : ¬ (tokenLeft - used).toNat = 0 := fun h =>
        hNonzero (BitVec.eq_of_toNat_eq (h.trans rfl))
      simp only [topUp_cons, hOffer, ← hLeft, hSome, if_false]
      have hOff : n.ptr ∉ (topUp (AppNode.slot quota) (2 ^ 64) ns (tokenLeft - used).toNat).1.map
          (·.1.ptr) := fun hMem => hNot
        (((topUp_first ns _).sublist.map AppNode.ptr).subset (by simpa using hMem))
      exact {
        pos    := by simp only [List.map_cons, hPass.pos]
        left   := hPass.left
        quotas := List.forall_mem_cons.mpr
          ⟨by rw [AppNodes.quotaNew, hPass.others _ hOff]; exact hQuota, hPass.quotas⟩
        min_le := List.forall_mem_cons.mpr ⟨hMin, hPass.min_le⟩
        others := fun x hx => by
          rw [List.map_cons, List.mem_cons, not_or] at hx
          exact (hPass.others x hx.2).trans (hOther x hx.1) }

end DatastorQos
