import DatastorQos.Lib.Linearize
import DatastorQos.Table.FiniteMap

/-!
# hash_table — calls from many threads

`rwinsert` takes its item from the cache before it locks the chain and gives a
rejected one back after it unlocked it; `rwerase` gives its item back after it
unlocked the chain. So other calls come between. Here every section between a
lock and its unlock, of a chain or of the cache, is one step, and any number of
calls take their steps in any order.

* `insert_sections`, `erase_sections` — a call that nobody interrupts does what
  the sequential model does;
* `table_linearizable` — any calls in any order look like calls of a finite map
  that answers each of them at one moment;
* `items_accounted` — what the cache has handed out is in the table or in the
  hands of a call on its way.

`for_each_do` locks one chain after the other and is no such call. What it
visits while others work on the table is the matter of `ForEach.lean`.
-/

namespace DatastorQos

open Interleave Linearize Refine Runs SafeRwList

variable {Id α : Type} {ops : IdOps Id}

-- ---------------------------------------------------------------------------
-- Sections
-- ---------------------------------------------------------------------------

namespace HashTable

/-- `cache->alloc`; `none` is a `NULL` return. -/
def takeItem (t : HashTable ops α) : Option (HashTable ops α) :=
  t.cache.alloc.map fun cache => { t with cache := cache }

/-- `cache->free`. -/
def giveItem (t : HashTable ops α) : HashTable ops α := { t with cache := t.cache.free }

theorem good_rwinsert (t : HashTable ops α) (id : Id) (pri : α) (list : List (ContainerItem Id α))
    (h : Good ops t.hashTable.length (t.index id) list) :
    Good ops t.hashTable.length (t.index id) (rwinsert ops list id pri) := h.insert pri rfl

theorem good_rwerase (t : HashTable ops α) (id : Id) (list : List (ContainerItem Id α))
    (h : Good ops t.hashTable.length (t.index id) list) :
    Good ops t.hashTable.length (t.index id) (rwerase ops list id) := h.erase id

/-- What `rwinsert` does under the lock of the chain. -/
def link (t : HashTable ops α) (id : Id) (pri : α) : HashTable ops α × TableError :=
  if (t.find id).isNone then
    (t.onChain id t.cache (rwinsert ops · id pri) (t.good_rwinsert id pri), .ok)
  else (t, .exist)

/-- What `rwerase` does under the lock of the chain. -/
def unlink (t : HashTable ops α) (id : Id) : HashTable ops α × Option α :=
  match t.find id with
  | some pri => (t.onChain id t.cache (rwerase ops · id) (t.good_rwerase id), some pri)
  | none => (t, none)

variable {t t' : HashTable ops α} {id : Id} {pri : α}

/-- Lookups do not ask the cache. -/
theorem find_of_cache (t : HashTable ops α) (cache : MemoryCache) (x : Id) :
    ({ t with cache := cache } : HashTable ops α).find x = t.find x := rfl

theorem takeItem_cases (h : t.takeItem = some t') :
    ∃ cache, t.cache.alloc = some cache ∧ t' = { t with cache := cache } := by
  obtain ⟨cache, hCache, rfl⟩ := Option.map_eq_some_iff.mp h
  exact ⟨cache, hCache, rfl⟩

theorem link_of_none (h : t.find id = none) :
    t.link id pri = (t.onChain id t.cache (rwinsert ops · id pri) (t.good_rwinsert id pri), .ok) :=
  if_pos (by rw [h]; rfl)

theorem link_of_some {a : α} (h : t.find id = some a) : t.link id pri = (t, .exist) :=
  if_neg (by rw [h]; exact Bool.false_ne_true)

/-- A whole insertion, without other calls. -/
theorem insert_sections (t : HashTable ops α) (id : Id) (pri : α) :
    t.insert id pri = t.takeItem.map fun t₁ =>
      if (t₁.link id pri).2 = .ok then t₁.link id pri else ((t₁.link id pri).1.giveItem, .exist) := by
  unfold insert takeItem
  rw [Option.map_map]
  congr 1
  funext cache
  rw [Function.comp_apply]
  cases hFind : t.find id with
  | none =>
    rw [link_of_none ((t.find_of_cache cache id).trans hFind)]
    exact if_pos rfl
  | some a =>
    rw [link_of_some ((t.find_of_cache cache id).trans hFind)]
    exact if_neg Bool.false_ne_true

/-- A whole erasure, without other calls. -/
theorem erase_sections (t : HashTable ops α) (id : Id) :
    t.erase id =
      if (t.unlink id).2.isSome then ((t.unlink id).1.giveItem, (t.unlink id).2) else t.unlink id := by
  unfold erase unlink
  cases t.find id <;> rfl

/-- A section under the lock of a chain leaves the cache alone. -/
@[simp] theorem cache_link (t : HashTable ops α) (id : Id) (pri : α) :
    (t.link id pri).1.cache = t.cache := by
  unfold link
  split <;> rfl

@[simp] theorem cache_unlink (t : HashTable ops α) (id : Id) :
    (t.unlink id).1.cache = t.cache := by
  unfold unlink
  split <;> rfl

theorem link_cases (t : HashTable ops α) (id : Id) (pri : α) :
    (t.find id = none ∧ (t.link id pri).2 = .ok ∧
      (t.link id pri).1.toMap = t.toMap.insert (ops.classOf id) pri ∧
      (t.link id pri).1.size = t.size + 1) ∨
    ((t.find id).isSome ∧ t.link id pri = (t, .exist)) := by
  cases hFind : t.find id with
  | none =>
    -- the same table over a cache that has an item
    have hInsert : ({ t with cache := .init 1 } : HashTable ops α).insert id pri =
        some ({ (t.link id pri).1 with cache := ⟨1, 1, 0⟩ }, .ok) := by
      rw [link_of_none hFind]
      exact Option.map_eq_some_iff.mpr ⟨_, show MemoryCache.alloc (.init 1) = some ⟨1, 1, 0⟩ by decide,
        if_pos (Option.isNone_iff_eq_none.mpr hFind)⟩
    have hMap := toMap_insert hInsert
    have hSize := size_insert hInsert
    exact Or.inl ⟨rfl, by rw [link_of_none hFind], hMap, hSize⟩
  | some a => exact Or.inr ⟨rfl, link_of_some hFind⟩

theorem unlink_cases (t : HashTable ops α) (id : Id) :
    (t.unlink id).2 = t.find id ∧ (t.unlink id).1.toMap = t.toMap.erase (ops.classOf id) ∧
      (t.unlink id).1.size + (if (t.find id).isSome then 1 else 0) = t.size := by
  have hErase : (t.erase id).1.toMap = (t.unlink id).1.toMap := by
    rw [erase_sections]
    split <;> rfl
  have hSize : (t.erase id).1.size = (t.unlink id).1.size := congrArg (·.keys.card) hErase
  refine ⟨?_, ?_, ?_⟩
  · unfold unlink
    split <;> simp_all
  · rw [← hErase, toMap_erase]
  · rw [← hSize]
    split
    · rename_i hSome
      exact size_erase hSome
    · rename_i hNone
      unfold erase
      split
      · simp_all
      · rfl

end HashTable

-- ---------------------------------------------------------------------------
-- Calls
-- ---------------------------------------------------------------------------

/-- Where a call is. -/
inductive TableCall (ops : IdOps Id) (α : Type) where
  | called (op : TableOp Id α)
  /-- `rwinsert` with its item in hand, before the lock -/
  | linking (id : Id) (pri : α)
  /-- `rwinsert` after the lock, its item still in hand -/
  | rejecting (id : Id) (pri : α)
  /-- `rwerase` after the lock, with the item it took out in hand -/
  | unlinked (id : Id) (pri : α)
  | returning (op : TableOp Id α) (answer : TableAnswer ops α)
  | returned (op : TableOp Id α) (answer : TableAnswer ops α)
  /-- `assert(item)` failed -/
  | asserted (id : Id) (pri : α)

/-- The next section of a call. -/
def TableCall.next (t : HashTable ops α) :
    TableCall ops α → Option (HashTable ops α × TableCall ops α)
  | .called (.insert id pri) =>
    match t.takeItem with
    | some t' => some (t', .linking id pri)
    | none => some (t, .asserted id pri)
  | .called (.erase id) =>
    match t.unlink id with
    | (t', some pri) => some (t', .unlinked id pri)
    | (t', none) => some (t', .returning (.erase id) (.erased none))
  | .called (.find id) => some (t, .returning (.find id) (.found (t.find id)))
  | .called .forEachDo => none
  | .linking id pri =>
    match t.link id pri with
    | (t', .ok) => some (t', .returning (.insert id pri) (.inserted .ok))
    | (t', _) => some (t', .rejecting id pri)
  | .rejecting id pri => some (t.giveItem, .returning (.insert id pri) (.inserted .exist))
  | .unlinked id pri => some (t.giveItem, .returning (.erase id) (.erased (some pri)))
  | .returning op answer => some (t, .returned op answer)
  | .returned _ _ => none
  | .asserted _ _ => none

/-- What a section can do. -/
inductive TableSection (t : HashTable ops α) :
    TableCall ops α → HashTable ops α → TableCall ops α → Prop where
  | take (id : Id) (pri : α) {cache : MemoryCache} : t.cache.alloc = some cache →
    TableSection t (.called (.insert id pri)) { t with cache := cache } (.linking id pri)
  | asserted (id : Id) (pri : α) : t.cache.alloc = none →
    TableSection t (.called (.insert id pri)) t (.asserted id pri)
  | link (id : Id) (pri : α) : t.find id = none →
    TableSection t (.linking id pri) (t.link id pri).1 (.returning (.insert id pri) (.inserted .ok))
  | reject (id : Id) (pri : α) : (t.find id).isSome →
    TableSection t (.linking id pri) t (.rejecting id pri)
  | giveRejected (id : Id) (pri : α) :
    TableSection t (.rejecting id pri) t.giveItem (.returning (.insert id pri) (.inserted .exist))
  | unlink (id : Id) {pri : α} : t.find id = some pri →
    TableSection t (.called (.erase id)) (t.unlink id).1 (.unlinked id pri)
  | missing (id : Id) : t.find id = none →
    TableSection t (.called (.erase id)) (t.unlink id).1 (.returning (.erase id) (.erased none))
  | giveUnlinked (id : Id) (pri : α) :
    TableSection t (.unlinked id pri) t.giveItem (.returning (.erase id) (.erased (some pri)))
  | find (id : Id) :
    TableSection t (.called (.find id)) t (.returning (.find id) (.found (t.find id)))
  | ret (op : TableOp Id α) (answer : TableAnswer ops α) :
    TableSection t (.returning op answer) t (.returned op answer)

theorem TableCall.next_cases {t t' : HashTable ops α} {l l' : TableCall ops α}
    (h : l.next t = some (t', l')) : TableSection t l t' l' := by
  cases l with
  | called op =>
    cases op with
    | insert id pri =>
      simp only [next] at h
      split at h <;> rename_i hTake <;> obtain ⟨rfl, rfl⟩ := Prod.mk.inj (Option.some.inj h)
      · obtain ⟨cache, hAlloc, rfl⟩ := HashTable.takeItem_cases hTake
        exact .take id pri hAlloc
      · exact .asserted id pri (Option.map_eq_none_iff.mp hTake)
    | erase id =>
      have hAnswer := (t.unlink_cases id).1
      simp only [next] at h
      split at h <;> rename_i hUnlink <;> obtain ⟨rfl, rfl⟩ := Prod.mk.inj (Option.some.inj h)
      · have hFound := TableSection.unlink (t := t) id (by rw [← hAnswer, hUnlink])
        rwa [hUnlink] at hFound
      · have hNone := TableSection.missing (t := t) id (by rw [← hAnswer, hUnlink])
        rwa [hUnlink] at hNone
    | find id =>
      obtain ⟨rfl, rfl⟩ := Prod.mk.inj (Option.some.inj h)
      exact .find id
    | forEachDo => cases h
  | linking id pri =>
    rcases t.link_cases id pri with ⟨hNone, hOk, -⟩ | ⟨hSome, hLink⟩
    · simp only [next] at h
      rw [show t.link id pri = ((t.link id pri).1, .ok) from Prod.ext rfl hOk] at h
      obtain ⟨rfl, rfl⟩ := Prod.mk.inj (Option.some.inj h)
      exact .link id pri hNone
    · simp only [next] at h
      rw [hLink] at h
      obtain ⟨rfl, rfl⟩ := Prod.mk.inj (Option.some.inj h)
      exact .reject id pri hSome
  | rejecting id pri =>
    obtain ⟨rfl, rfl⟩ := Prod.mk.inj (Option.some.inj h)
    exact .giveRejected id pri
  | unlinked id pri =>
    obtain ⟨rfl, rfl⟩ := Prod.mk.inj (Option.some.inj h)
    exact .giveUnlinked id pri
  | returning op answer =>
    obtain ⟨rfl, rfl⟩ := Prod.mk.inj (Option.some.inj h)
    exact .ret op answer
  | returned op answer => cases h
  | asserted id pri => cases h

/-- Any calls but `for_each_do`. -/
def tableProgram (ops : IdOps Id) (α : Type) : Program (HashTable ops α) (TableCall ops α) where
  start l := ∃ op, op ≠ .forEachDo ∧ l = .called op
  step t l t' l' := l.next t = some (t', l')

/-- The calls on a new table. -/
def tableSystem (ops : IdOps Id) (α : Type) (itemNum : ULong) :
    System (Config (HashTable ops α) (TableCall ops α)) (Move (TableCall ops α)) :=
  (tableProgram ops α).system fun t => ∃ tabLen h, t = .alloc ops α tabLen itemNum h

variable {itemNum : ULong} {t t' : HashTable ops α} {calls rest : Multiset (TableCall ops α)}

theorem tableSystem_start (op : TableOp Id α) (h : op ≠ .forEachDo) :
    (tableSystem ops α itemNum).step ⟨t, calls⟩ (.start (.called op)) ⟨t, .called op ::ₘ calls⟩ :=
  Step.start ⟨op, h, rfl⟩

theorem tableSystem_section {l l' : TableCall ops α} (hCalls : calls = l ::ₘ rest)
    (h : l.next t = some (t', l')) :
    (tableSystem ops α itemNum).step ⟨t, calls⟩ (.run l l') ⟨t', l' ::ₘ rest⟩ :=
  Step.run_of_eq hCalls h

-- ---------------------------------------------------------------------------
-- Calls look atomic
-- ---------------------------------------------------------------------------

/-- The call a user of the map sees: an insertion is answered where it locks the
chain, and so is an erasure. -/
def TableCall.view : TableCall ops α → ObjectCall (TableOp Id α) (TableAnswer ops α)
  | .called op => .invoked op
  | .linking id pri => .invoked (.insert id pri)
  | .rejecting id pri => .answered (.insert id pri) (.inserted .exist)
  | .unlinked id pri => .answered (.erase id) (.erased (some pri))
  | .returning op answer => .answered op answer
  | .returned op answer => .returned op answer
  | .asserted id pri => .invoked (.insert id pri)

theorem table_linearizes :
    Linearizes (tableProgram ops α) (mapMachine ops α) TableCall.view fun t m => t.toMap = m where
  start := by
    rintro l ⟨op, -, rfl⟩
    exact ⟨op, rfl⟩
  step := by
    rintro t l t' l' _ rfl hStep
    cases TableCall.next_cases hStep with
    | take id pri hAlloc => exact Or.inl ⟨rfl, rfl⟩
    | asserted id pri hAlloc => exact Or.inl ⟨rfl, rfl⟩
    | link id pri hNone =>
      rcases t.link_cases id pri with ⟨-, -, hMap, -⟩ | ⟨hSome, -⟩
      · have hNew : ops.classOf id ∉ t.toMap := by
          rw [HashTable.mem_toMap_iff, hNone]
          exact Bool.false_ne_true
        exact Or.inr ⟨_, .answer (if_neg hNew), hMap⟩
      · rw [hNone] at hSome
        cases hSome
    | reject id pri hSome =>
      exact Or.inr ⟨_, .answer (if_pos (HashTable.mem_toMap_iff.mpr hSome)), rfl⟩
    | giveRejected id pri => exact Or.inl ⟨rfl, rfl⟩
    | unlink id hSome =>
      refine Or.inr ⟨_, .answer ?_, (t.unlink_cases id).2.1⟩
      simp only [mapMachine, HashTable.lookup_toMap, hSome]
    | missing id hNone =>
      refine Or.inr ⟨_, .answer ?_, (t.unlink_cases id).2.1⟩
      simp only [mapMachine, HashTable.lookup_toMap, hNone]
    | giveUnlinked id pri => exact Or.inl ⟨rfl, rfl⟩
    | find id =>
      refine Or.inr ⟨_, .answer ?_, rfl⟩
      simp only [mapMachine, HashTable.lookup_toMap]
    | ret op answer => exact Or.inr ⟨_, .give, rfl⟩

/-- The calls on an empty map. -/
def mapSystem (ops : IdOps Id) (α : Type) :=
  (object (mapMachine ops α)).system (· = ∅)

/-- **Calls look atomic.** The calls and returns of any interleaving are those of
an interleaving of atomic calls of the map the table stands for; what was
answered so far is what the map answers to the same calls one after the other. -/
theorem table_linearizable {itemNum : ULong} {c₀ c : Config (HashTable ops α) (TableCall ops α)}
    {tr : List (Transition (Config (HashTable ops α) (TableCall ops α)) (Move (TableCall ops α)))}
    (hInit : (tableSystem ops α itemNum).init c₀) (hRun : Run (tableSystem ops α itemNum) c₀ tr c) :
    ∃ tr', Run (mapSystem ops α) ⟨∅, 0⟩ tr' ⟨c.shared.toMap, c.calls.map TableCall.view⟩ ∧
      history id tr' = history TableCall.view tr ∧
      ∃ order : List (TableOp Id α × TableAnswer ops α),
        (mapMachine ops α).run ∅ (order.map Prod.fst) =
          some (c.shared.toMap, order.map Prod.snd) ∧
        (order : Multiset _) = (c.calls.map TableCall.view).filterMap ObjectCall.answer? := by
  obtain ⟨t₀, calls₀⟩ := c₀
  obtain ⟨⟨tabLen, h, rfl⟩, rfl⟩ := hInit
  obtain ⟨tr', m, hRun', hHistory, rfl⟩ :=
    table_linearizes.run hRun HashTable.toMap_alloc (· = ∅)
  rw [Multiset.map_zero] at hRun'
  exact ⟨tr', hRun', hHistory, object_sequential hRun'⟩

-- ---------------------------------------------------------------------------
-- Items
-- ---------------------------------------------------------------------------

/-- The item a call has in hand. -/
def TableCall.inHand : TableCall ops α → Nat
  | .linking _ _ => 1
  | .rejecting _ _ => 1
  | .unlinked _ _ => 1
  | _ => 0

/-- Each item that is out is in the table or in the hand of a call. -/
def ItemsAccounted (itemNum : ULong) (t : HashTable ops α) (calls : Multiset (TableCall ops α)) :
    Prop :=
  t.cache.Holds itemNum (t.size + (calls.map TableCall.inHand).sum)

/-- One section of one call. -/
theorem ItemsAccounted.step {itemNum : ULong} {t t' : HashTable ops α} {l l' : TableCall ops α}
    {rest : Multiset (TableCall ops α)} (hi : ItemsAccounted itemNum t (l ::ₘ rest))
    (hSection : TableSection t l t' l') : ItemsAccounted itemNum t' (l' ::ₘ rest) := by
  unfold ItemsAccounted at hi ⊢
  rw [Multiset.map_cons, Multiset.sum_cons] at hi ⊢
  generalize (rest.map TableCall.inHand).sum = others at hi ⊢
  cases hSection <;> simp only [TableCall.inHand] at hi ⊢
  case take id pri cache hAlloc =>
    have hTook := hi.alloc hAlloc
    rwa [show t.size + (0 + others) + 1 = t.size + (1 + others) by omega] at hTook
  case asserted id pri hAlloc => exact hi
  case link id pri hNone =>
    rcases t.link_cases id pri with ⟨-, -, -, hSize⟩ | ⟨hSome, -⟩
    · rw [HashTable.cache_link, hSize, show t.size + 1 + (0 + others) = t.size + (1 + others) by omega]
      exact hi
    · rw [hNone] at hSome
      cases hSome
  case reject id pri hSome => exact hi
  case giveRejected id pri =>
    rw [show t.size + (1 + others) = t.size + (0 + others) + 1 by omega] at hi
    exact hi.free
  case unlink id pri hSome =>
    have hSize := (t.unlink_cases id).2.2
    rw [hSome, if_pos (show (some pri).isSome from rfl)] at hSize
    rw [HashTable.cache_unlink]
    rwa [show t.size + (0 + others) = (t.unlink id).1.size + (1 + others) by omega] at hi
  case missing id hNone =>
    have hSize := (t.unlink_cases id).2.2
    rw [hNone, if_neg (show ¬ (none : Option α).isSome from Bool.false_ne_true)] at hSize
    rw [HashTable.cache_unlink]
    rwa [← hSize] at hi
  case giveUnlinked id pri =>
    rw [show t.size + (1 + others) = t.size + (0 + others) + 1 by omega] at hi
    exact hi.free
  case find id => exact hi
  case ret op answer => exact hi

/-- **No item is lost**, at any moment of any interleaving: the cache has handed
out one item for each id in the table and one for each call that has one in
hand, never more than it may. An insertion fails its assertion exactly where it
finds them all out. -/
theorem items_accounted {itemNum : ULong} {c : Config (HashTable ops α) (TableCall ops α)}
    (h : Reachable (tableSystem ops α itemNum) c) :
    c.shared.cache.outstanding = c.shared.size + (c.calls.map TableCall.inHand).sum ∧
    c.shared.size + (c.calls.map TableCall.inHand).sum ≤ itemNum.toNat ∧
    (∀ id pri, (TableCall.called (.insert id pri)).next c.shared =
        some (c.shared, .asserted id pri) ↔
      c.shared.size + (c.calls.map TableCall.inHand).sum = itemNum.toNat) ∧
    ((∀ l ∈ c.calls, ∃ op answer, l = .returned op answer) →
      c.shared.cache.outstanding = c.shared.size) := by
  have hi : ItemsAccounted itemNum c.shared c.calls := by
    refine reachable_invariant ?_ ?_ ?_ h
    · rintro t ⟨tabLen, hPos, rfl⟩
      unfold ItemsAccounted
      rw [HashTable.size_alloc]
      exact .init itemNum
    · rintro t calls l hi ⟨op, -, rfl⟩
      unfold ItemsAccounted at hi ⊢
      rw [Multiset.map_cons, Multiset.sum_cons]
      simpa only [TableCall.inHand, Nat.zero_add] using hi
    · exact fun t t' l l' rest hi hStep => hi.step (TableCall.next_cases hStep)
  have hAlloc := hi.isSome_alloc_iff
  have hLe := hi.le
  refine ⟨hi.outstanding_eq, hLe, fun id pri => ?_, fun hAll => ?_⟩
  · rw [show (TableCall.called (.insert id pri)).next c.shared =
        some (c.shared, .asserted id pri) ↔ c.shared.cache.alloc = none from ?_]
    · rw [← Option.not_isSome_iff_eq_none, hAlloc]
      omega
    · unfold TableCall.next HashTable.takeItem
      cases c.shared.cache.alloc <;> simp
  · have hNone : (c.calls.map TableCall.inHand).sum = 0 := by
      refine Multiset.sum_eq_zero fun n hn => ?_
      obtain ⟨l, hl, rfl⟩ := Multiset.mem_map.mp hn
      obtain ⟨op, answer, rfl⟩ := hAll l hl
      rfl
    rw [hi.outstanding_eq, hNone, Nat.add_zero]

section TwoInsertions

/-- Two threads insert the same id, both have their item; the second links its
own first, and returns before the other one notices. -/
theorem exists_two_insertions : ∃ tr t,
    Run (tableSystem IdOps.nat ℕ 2) ⟨.alloc IdOps.nat ℕ 2 2 Nat.two_pos, 0⟩ tr
      ⟨t, .rejecting 1 10 ::ₘ .returned (.insert 1 20) (.inserted .ok) ::ₘ 0⟩ ∧
    history TableCall.view tr =
      [.call (.insert 1 10), .call (.insert 1 20), .ret (.insert 1 20) (.inserted .ok)] := by
  have hSwap : ∀ a b : TableCall IdOps.nat ℕ, a ::ₘ b ::ₘ 0 = b ::ₘ a ::ₘ 0 :=
    fun a b => Multiset.cons_swap a b 0
  refine ⟨_, _, ((((((Run.nil
    |>.snoc (tableSystem_start (.insert 1 10) (by simp)))
    |>.snoc (tableSystem_section rfl rfl))
    |>.snoc (tableSystem_start (.insert 1 20) (by simp)))
    |>.snoc (tableSystem_section rfl rfl))
    |>.snoc (tableSystem_section rfl rfl))
    |>.snoc (tableSystem_section rfl rfl))
    |>.snoc (tableSystem_section (hSwap _ _) rfl), rfl⟩

/-- The map sees one insertion that came first and one that came too late. -/
theorem table_linearizable_two_insertions : ∃ tr' m,
    Run (mapSystem IdOps.nat ℕ) ⟨∅, 0⟩ tr'
      ⟨m, .answered (.insert 1 10) (.inserted .exist) ::ₘ
        .returned (.insert 1 20) (.inserted .ok) ::ₘ 0⟩ ∧
    history id tr' =
      [.call (.insert 1 10), .call (.insert 1 20), .ret (.insert 1 20) (.inserted .ok)] := by
  obtain ⟨tr, t, hRun, hHistory⟩ := exists_two_insertions
  obtain ⟨tr', hRun', hSame, -⟩ := table_linearizable ⟨⟨2, Nat.two_pos, rfl⟩, rfl⟩ hRun
  exact ⟨tr', _, hRun', hSame.trans hHistory⟩

/-- The rejected item is still out. -/
theorem items_accounted_two_insertions : ∃ c : Config (HashTable IdOps.nat ℕ) (TableCall IdOps.nat ℕ),
    Reachable (tableSystem IdOps.nat ℕ 2) c ∧
      c.shared.cache.outstanding = c.shared.size + 1 := by
  obtain ⟨tr, t, hRun, -⟩ := exists_two_insertions
  have hReach : Reachable (tableSystem IdOps.nat ℕ 2) _ :=
    ⟨_, tr, ⟨⟨2, Nat.two_pos, rfl⟩, rfl⟩, hRun⟩
  exact ⟨_, hReach, (items_accounted hReach).1⟩

end TwoInsertions

end DatastorQos
