import DatastorQos.Table.FiniteMap
import DatastorQos.Table.ListHead

/-!
# hash_table — chains link by link, of items that come and go

`safe_rw_list.c` and `hash_table.c` once more, with the links they follow and
write and with the items that the cache hands out and takes back. An item can be
anywhere, also where an earlier one was. What reads, writes or frees memory that
is not there is a fault.

* `TableAt` — a table in memory: the chains of `HashTable` are rings, and all
  items that were handed out are in them;
* `chains_are_finite_map` — no call on a table makes a fault, and all answers are
  those of a finite map, whatever memory is found for the items;
* `free_hash_table_safe_iff` — `free_hash_table` reads the links of items it has
  freed, unless there are none.
-/

namespace DatastorQos

open Refine SafeRwList

variable {Id α : Type} {ops : IdOps Id}

/-- What keeps a call from returning. -/
inductive ChainFault where
  /-- it reads, writes or frees what is not there -/
  | invalid
  /-- `assert(item)` -/
  | asserted
  /-- it took more steps than it was allowed -/
  | unfinished
  deriving DecidableEq, Repr

/-- `hash_table_t` in memory. -/
structure TableMem (Id α : Type) where
  cache  : MemoryCache
  tabLen : Nat
  /-- `&hash_table[i].list` -/
  heads  : Nat → ListHeadPtr
  links  : ListMem
  /-- the items that are there -/
  items  : ListHeadPtr → Option (ContainerItem Id α)

namespace TableMem

/-- There is a `struct list_head` at this address. -/
def There (s : TableMem Id α) (p : ListHeadPtr) : Prop :=
  (∃ i < s.tabLen, s.heads i = p) ∨ (s.items p).isSome

instance (s : TableMem Id α) (p : ListHeadPtr) : Decidable (s.There p) :=
  inferInstanceAs (Decidable (_ ∨ _))

-- ---------------------------------------------------------------------------
-- Memory
-- ---------------------------------------------------------------------------

/-- All of these are read or written. -/
def touch (s : TableMem Id α) (ps : List ListHeadPtr) : Except ChainFault Unit :=
  if ∀ p ∈ ps, s.There p then .ok () else .error .invalid

/-- `pos->next`. -/
def nextOf (s : TableMem Id α) (pos : ListHeadPtr) : Except ChainFault ListHeadPtr := do
  s.touch [pos]
  return s.links.next pos

/-- What the item at `pos` holds. -/
def itemAt (s : TableMem Id α) (pos : ListHeadPtr) : Except ChainFault (ContainerItem Id α) :=
  match s.items pos with
  | some item => .ok item
  | none => .error .invalid

/-- The item at `p` is there, initialised and in no chain. -/
def got (s : TableMem Id α) (cache : MemoryCache) (p : ListHeadPtr) (item : ContainerItem Id α) :
    TableMem Id α :=
  { s with
    cache := cache
    items := Function.update s.items p (some item)
    links := s.links.listheadInit p }

/-- The item at `p` is gone. -/
def gave (s : TableMem Id α) (p : ListHeadPtr) : TableMem Id α :=
  { s with cache := s.cache.free, items := Function.update s.items p none }

/-- `cache->alloc`, where `qos_alloc` finds memory at `p`, with
`qos_container_item_init`. -/
def allocItem (s : TableMem Id α) (p : ListHeadPtr) (id : Id) (pri : α) :
    Except ChainFault (TableMem Id α) :=
  match s.cache.alloc with
  | some cache => .ok (s.got cache p ⟨id, pri⟩)
  | none => .error .asserted

/-- `cache->free`. -/
def freeItem (s : TableMem Id α) (p : ListHeadPtr) : Except ChainFault (TableMem Id α) := do
  let _ ← s.itemAt p
  return s.gave p

-- ---------------------------------------------------------------------------
-- safe_rw_list.c
-- ---------------------------------------------------------------------------

/-- `list_for_each` from `pos` to the first item of an id, or to the end. -/
def findFrom (ops : IdOps Id) (s : TableMem Id α) (head : ListHeadPtr) (id : Id) :
    Nat → ListHeadPtr → Except ChainFault (Option ListHeadPtr)
  | 0, _ => .error .unfinished
  | fuel + 1, pos =>
    if pos = head then .ok none
    else do
      let item ← s.itemAt pos
      if ops.Same item.id id then return some pos
      else
        let next ← s.nextOf pos
        s.findFrom ops head id fuel next

/-- `rwfind_nolock`. -/
def rwfindNolock (ops : IdOps Id) (fuel : Nat) (s : TableMem Id α) (head : ListHeadPtr) (id : Id) :
    Except ChainFault (Option α) := do
  let first ← s.nextOf head
  match ← s.findFrom ops head id fuel first with
  | some pos =>
    let item ← s.itemAt pos
    return some item.pri
  | none => return none

/-- `rwinsert`. -/
def rwinsert (ops : IdOps Id) (fuel : Nat) (s : TableMem Id α) (head p : ListHeadPtr) (id : Id)
    (pri : α) : Except ChainFault (TableMem Id α × TableError) := do
  let s ← s.allocItem p id pri
  match ← s.rwfindNolock ops fuel head id with
  | none =>
    s.touch [head, s.links.next head, p]
    return ({ s with links := s.links.listAdd p head }, .ok)
  | some _ =>
    let s ← s.freeItem p
    return (s, .exist)

/-- `rwerase`. -/
def rwerase (ops : IdOps Id) (fuel : Nat) (s : TableMem Id α) (head : ListHeadPtr) (id : Id) :
    Except ChainFault (TableMem Id α × Option α) := do
  let first ← s.nextOf head
  match ← s.findFrom ops head id fuel first with
  | some pos =>
    s.touch [pos, s.links.prev pos, s.links.next pos]
    let s := { s with links := s.links.listDel pos }
    let item ← s.itemAt pos
    let s ← s.freeItem pos
    return (s, some item.pri)
  | none => return (s, none)

/-- What the `dofunc` of `for_each_do` is applied to, from `pos` on. -/
def itemsFrom (s : TableMem Id α) (head : ListHeadPtr) :
    Nat → ListHeadPtr → Except ChainFault (List (ContainerItem Id α))
  | 0, _ => .error .unfinished
  | fuel + 1, pos =>
    if pos = head then .ok []
    else do
      let item ← s.itemAt pos
      let next ← s.nextOf pos
      let rest ← s.itemsFrom head fuel next
      return item :: rest

/-- `for_each_do` of one chain. -/
def rwForEachDo (fuel : Nat) (s : TableMem Id α) (head : ListHeadPtr) :
    Except ChainFault (List (ContainerItem Id α)) := do
  let first ← s.nextOf head
  s.itemsFrom head fuel first

/-- The loop of `rwclear`, which reads `pos->next` after it freed the item. -/
def clearFrom (head : ListHeadPtr) :
    Nat → TableMem Id α → ListHeadPtr → Except ChainFault (TableMem Id α)
  | 0, _, _ => .error .unfinished
  | fuel + 1, s, pos =>
    if pos = head then .ok s
    else do
      let s ← s.freeItem pos
      let next ← s.nextOf pos
      clearFrom head fuel s next

/-- `rwclear`. -/
def rwclear (fuel : Nat) (s : TableMem Id α) (head : ListHeadPtr) :
    Except ChainFault (TableMem Id α) := do
  let first ← s.nextOf head
  let s ← clearFrom head fuel s first
  return { s with links := s.links.listheadInit head }

-- ---------------------------------------------------------------------------
-- hash_table.c
-- ---------------------------------------------------------------------------

/-- The `LISTHEAD_INIT` of the chains `is`. -/
def initHeads (heads : Nat → ListHeadPtr) (is : List Nat) (m : ListMem) : ListMem :=
  is.foldl (fun m i => ListMem.listheadInit m (heads i)) m

/-- `alloc_hash_table`, with the chains at `heads`. -/
def allocHashTable (Id α : Type) (tabLen : Nat) (itemNum : ULong) (heads : Nat → ListHeadPtr)
    (links : ListMem) : TableMem Id α where
  cache  := .init itemNum
  tabLen := tabLen
  heads  := heads
  links  := initHeads heads (List.range tabLen) links
  items  := fun _ => none

/-- `&tab->hash_table[index]`. -/
def headOf (ops : IdOps Id) (s : TableMem Id α) (id : Id) : ListHeadPtr :=
  s.heads (ops.hashId id s.tabLen)

def hinsert (ops : IdOps Id) (fuel : Nat) (s : TableMem Id α) (p : ListHeadPtr) (id : Id)
    (pri : α) : Except ChainFault (TableMem Id α × TableError) :=
  s.rwinsert ops fuel (s.headOf ops id) p id pri

def herase (ops : IdOps Id) (fuel : Nat) (s : TableMem Id α) (id : Id) :
    Except ChainFault (TableMem Id α × Option α) :=
  s.rwerase ops fuel (s.headOf ops id) id

def hfind (ops : IdOps Id) (fuel : Nat) (s : TableMem Id α) (id : Id) :
    Except ChainFault (Option α) :=
  s.rwfindNolock ops fuel (s.headOf ops id) id

/-- What `for_each_do` applies its function to. -/
def forEachDo (fuel : Nat) (s : TableMem Id α) : Except ChainFault (List (ContainerItem Id α)) := do
  let lists ← (List.range s.tabLen).mapM fun i => s.rwForEachDo fuel (s.heads i)
  return lists.flatten

/-- `free_hash_table`, without what comes after the loop. -/
def freeHashTable (fuel : Nat) (s : TableMem Id α) : Except ChainFault (TableMem Id α) :=
  (List.range s.tabLen).foldlM (fun s i => s.rwclear fuel (s.heads i)) s

-- ---------------------------------------------------------------------------
-- What is there
-- ---------------------------------------------------------------------------

variable {s s' : TableMem Id α} {head p pos : ListHeadPtr} {l : List ListHeadPtr}
  {chain : List (ContainerItem Id α)} {item : ContainerItem Id α} {fuel : Nat} {id : Id} {pri : α}

theorem touch_eq {ps : List ListHeadPtr} (h : ∀ p ∈ ps, s.There p) : s.touch ps = .ok () := if_pos h

theorem nextOf_eq (h : s.There pos) : s.nextOf pos = .ok (s.links.next pos) := by
  unfold nextOf
  rw [touch_eq fun p hp => List.mem_singleton.mp hp ▸ h]
  rfl

theorem nextOf_error (h : ¬ s.There pos) : s.nextOf pos = .error .invalid := by
  unfold nextOf touch
  rw [if_neg fun hAll => h (hAll pos List.mem_cons_self)]
  rfl

theorem itemAt_eq (h : s.items pos = some item) : s.itemAt pos = .ok item := by
  unfold itemAt
  rw [h]

theorem there_of_item (h : s.items pos = some item) : s.There pos := Or.inr (by rw [h]; rfl)

theorem freeItem_eq (h : s.items p = some item) : s.freeItem p = .ok (s.gave p) := by
  unfold freeItem
  rw [itemAt_eq h]
  rfl

theorem allocItem_eq {cache : MemoryCache} (h : s.cache.alloc = some cache) :
    s.allocItem p id pri = .ok (s.got cache p ⟨id, pri⟩) := by
  unfold allocItem
  rw [h]

theorem items_got_self (s : TableMem Id α) (cache : MemoryCache) (p : ListHeadPtr)
    (item : ContainerItem Id α) : (s.got cache p item).items p = some item :=
  Function.update_self ..

theorem items_got {cache : MemoryCache} (h : pos ≠ p) :
    (s.got cache p item).items pos = s.items pos := Function.update_of_ne h ..

theorem items_gave_self : (s.gave p).items p = none := Function.update_self ..

theorem items_gave (h : pos ≠ p) : (s.gave p).items pos = s.items pos := Function.update_of_ne h ..

end TableMem

-- ---------------------------------------------------------------------------
-- One chain
-- ---------------------------------------------------------------------------

/-- The chain in memory, its items at `l`. -/
structure ChainAt (s : TableMem Id α) (head : ListHeadPtr) (l : List ListHeadPtr)
    (chain : List (ContainerItem Id α)) : Prop where
  there   : s.There head
  ring    : LinkedRing.Ring s.links head l
  content : l.map s.items = chain.map some

/-- Where the walk for an id ends. -/
inductive Found (ops : IdOps Id) (s : TableMem Id α) (id : Id) (l : List ListHeadPtr)
    (chain : List (ContainerItem Id α)) : Option ListHeadPtr → Prop where
  | missing : (∀ item ∈ chain, ¬ ops.Same item.id id) → Found ops s id l chain none
  | here {l₁ l₂ : List ListHeadPtr} {pos : ListHeadPtr} {c₁ c₂ : List (ContainerItem Id α)}
      {item : ContainerItem Id α} : l = l₁ ++ pos :: l₂ → chain = c₁ ++ item :: c₂ →
      l₁.map s.items = c₁.map some → s.items pos = some item → l₂.map s.items = c₂.map some →
      ops.Same item.id id → (∀ item ∈ c₁, ¬ ops.Same item.id id) →
      Found ops s id l chain (some pos)

theorem rwfind_first {c₁ c₂ : List (ContainerItem Id α)} {item : ContainerItem Id α} {id : Id}
    (hBefore : ∀ x ∈ c₁, ¬ ops.Same x.id id) (hSame : ops.Same item.id id) :
    rwfind ops (c₁ ++ item :: c₂) id = some item.pri := by
  rw [rwfind, List.find?_append, List.find?_eq_none.mpr fun x hx => by simpa using hBefore x hx,
    List.find?_cons_of_pos (by simpa using hSame)]
  rfl

theorem rwerase_first {c₁ c₂ : List (ContainerItem Id α)} {item : ContainerItem Id α} {id : Id}
    (hBefore : ∀ x ∈ c₁, ¬ ops.Same x.id id) (hSame : ops.Same item.id id) :
    SafeRwList.rwerase ops (c₁ ++ item :: c₂) id = c₁ ++ c₂ := by
  rw [SafeRwList.rwerase, List.eraseP_append_right _ fun x hx => by simpa using hBefore x hx,
    List.eraseP_cons_of_pos (by simpa using hSame)]

namespace ChainAt

open TableMem

variable {s s' : TableMem Id α} {head p pos : ListHeadPtr} {l : List ListHeadPtr}
  {chain : List (ContainerItem Id α)} {fuel : Nat} {id : Id}

theorem length_eq (h : ChainAt s head l chain) : l.length = chain.length := by
  have hLength := congrArg List.length h.content
  rwa [List.length_map, List.length_map] at hLength

/-- A chain is its links and its items. -/
theorem congr (h : ChainAt s head l chain) (hThere : s'.There head)
    (hRing : LinkedRing.Ring s'.links head l) (hItems : ∀ x ∈ l, s'.items x = s.items x) :
    ChainAt s' head l chain :=
  ⟨hThere, hRing, (List.map_congr_left hItems).trans h.content⟩

theorem nextOf_head (h : ChainAt s head l chain) : s.nextOf head = .ok (l.headD head) := by
  rw [nextOf_eq h.there, h.ring.next_head]

/-- All that a chain is linked with is there. -/
theorem there_of_mem (h : ChainAt s head l chain) (hp : p ∈ head :: l) : s.There p := by
  rcases List.mem_cons.mp hp with rfl | hp
  · exact h.there
  · have hSome : s.items p ∈ chain.map some := h.content ▸ List.mem_map_of_mem hp
    obtain ⟨item, -, hItem⟩ := List.mem_map.mp hSome
    exact there_of_item hItem.symm

/-- A walk on its way, with the items `before` behind it. -/
private theorem findFrom_rest {before rest : List ListHeadPtr} {chain : List (ContainerItem Id α)}
    (hRing : LinkedRing.Ring s.links head (before ++ rest))
    (hContent : rest.map s.items = chain.map some) (hFuel : rest.length < fuel) :
    ∃ found, s.findFrom ops head id fuel (rest.headD head) = .ok found ∧
      Found ops s id rest chain found := by
  induction rest generalizing before chain fuel with
  | nil =>
    obtain ⟨fuel, rfl⟩ := Nat.exists_eq_succ_of_ne_zero (Nat.ne_of_gt hFuel)
    obtain rfl : chain = [] := List.map_eq_nil_iff.mp hContent.symm
    exact ⟨none, if_pos rfl, .missing (by simp)⟩
  | cons x rest ih =>
    obtain ⟨fuel, rfl⟩ := Nat.exists_eq_succ_of_ne_zero (Nat.ne_of_gt (Nat.zero_lt_of_lt hFuel))
    obtain ⟨item, chain, rfl, hItem, hRest⟩ := List.map_eq_cons_iff.mp hContent.symm
    have hne : x ≠ head := fun heq => hRing.head_not_mem
      (heq ▸ List.mem_append_right before List.mem_cons_self)
    rw [List.headD_cons, TableMem.findFrom, if_neg hne, itemAt_eq hItem.symm]
    by_cases hSame : ops.Same item.id id
    · exact ⟨some x, if_pos hSame, .here (List.nil_append (x :: rest)).symm
        (List.nil_append (item :: chain)).symm rfl hItem.symm hRest.symm hSame (by simp)⟩
    · have hNext : s.nextOf x = .ok (rest.headD head) := by
        rw [nextOf_eq (there_of_item hItem.symm), hRing.next_eq]
      rw [List.append_cons] at hRing
      obtain ⟨found, hFind, hFound⟩ := ih hRing hRest.symm (Nat.lt_of_succ_lt_succ hFuel)
      refine ⟨found, ?_, ?_⟩
      · show (if ops.Same item.id id then _ else _) = _
        rw [if_neg hSame, hNext]
        exact hFind
      · cases hFound with
        | missing hAll => exact .missing (List.forall_mem_cons.mpr ⟨hSame, hAll⟩)
        | here hl hc h₁ hpos h₂ hThat hBefore =>
          subst hl hc
          refine .here (List.cons_append ..).symm (List.cons_append ..).symm ?_ hpos h₂ hThat
            (List.forall_mem_cons.mpr ⟨hSame, hBefore⟩)
          rw [List.map_cons, List.map_cons, h₁, hItem]

/-- **The walk for an id** ends at its first item. -/
theorem findFrom_eq (ops : IdOps Id) (h : ChainAt s head l chain) (hFuel : l.length < fuel)
    (id : Id) :
    ∃ found, s.findFrom ops head id fuel (l.headD head) = .ok found ∧
      Found ops s id l chain found :=
  findFrom_rest ((List.nil_append l).symm ▸ h.ring) h.content hFuel

/-- What is found under an id. -/
theorem rwfind_eq (h : ChainAt s head l chain) (hFuel : l.length < fuel) (id : Id) :
    s.rwfindNolock ops fuel head id = .ok (rwfind ops chain id) := by
  obtain ⟨found, hFind, hFound⟩ := h.findFrom_eq ops hFuel id
  unfold TableMem.rwfindNolock
  rw [h.nextOf_head]
  show (s.findFrom ops head id fuel (l.headD head) >>= _) = _
  rw [hFind]
  cases hFound with
  | missing hAll =>
    rw [rwfind_eq_none_iff.mpr hAll]
    rfl
  | here hl hc h₁ hpos h₂ hSame hBefore =>
    show (s.itemAt _ >>= _) = _
    rw [itemAt_eq hpos, hc, rwfind_first hBefore hSame]
    rfl

private theorem itemsFrom_rest {before rest : List ListHeadPtr} {chain : List (ContainerItem Id α)}
    (hRing : LinkedRing.Ring s.links head (before ++ rest))
    (hContent : rest.map s.items = chain.map some) (hFuel : rest.length < fuel) :
    s.itemsFrom head fuel (rest.headD head) = .ok chain := by
  induction rest generalizing before chain fuel with
  | nil =>
    obtain ⟨fuel, rfl⟩ := Nat.exists_eq_succ_of_ne_zero (Nat.ne_of_gt hFuel)
    obtain rfl : chain = [] := List.map_eq_nil_iff.mp hContent.symm
    exact if_pos rfl
  | cons x rest ih =>
    obtain ⟨fuel, rfl⟩ := Nat.exists_eq_succ_of_ne_zero (Nat.ne_of_gt (Nat.zero_lt_of_lt hFuel))
    obtain ⟨item, chain, rfl, hItem, hRest⟩ := List.map_eq_cons_iff.mp hContent.symm
    have hne : x ≠ head := fun heq => hRing.head_not_mem
      (heq ▸ List.mem_append_right before List.mem_cons_self)
    have hNext : s.nextOf x = .ok (rest.headD head) := by
      rw [nextOf_eq (there_of_item hItem.symm), hRing.next_eq]
    rw [List.append_cons] at hRing
    rw [List.headD_cons, TableMem.itemsFrom, if_neg hne, itemAt_eq hItem.symm, hNext]
    show (s.itemsFrom head fuel (rest.headD head) >>= _) = _
    rw [ih hRing hRest.symm (Nat.lt_of_succ_lt_succ hFuel)]
    rfl

/-- `for_each_do` gets to the items in their order. -/
theorem rwForEachDo_eq (h : ChainAt s head l chain) (hFuel : l.length < fuel) :
    s.rwForEachDo fuel head = .ok chain := by
  unfold TableMem.rwForEachDo
  rw [h.nextOf_head]
  exact itemsFrom_rest ((List.nil_append l).symm ▸ h.ring) h.content hFuel

end ChainAt

-- ---------------------------------------------------------------------------
-- The table
-- ---------------------------------------------------------------------------

/-- The table in memory, the items of chain `i` at `addrs i`. -/
structure TableAt (s : TableMem Id α) (t : HashTable ops α) (addrs : Nat → List ListHeadPtr) :
    Prop where
  cache_eq : s.cache = t.cache
  len_eq   : s.tabLen = t.hashTable.length
  chain    : ∀ i < s.tabLen, ChainAt s (s.heads i) (addrs i) (t.hashTable.getD i [])
  own      : ∀ p, (s.items p).isSome → ∃ i < s.tabLen, p ∈ addrs i
  apart    : ∀ i < s.tabLen, ∀ j < s.tabLen, i ≠ j →
    ∀ p ∈ s.heads i :: addrs i, p ∉ s.heads j :: addrs j

/-- `&tab->hash_table[i].list` for the chains of a table. -/
def HeadsApart (tabLen : Nat) (heads : Nat → ListHeadPtr) : Prop :=
  ∀ i < tabLen, ∀ j < tabLen, heads i = heads j → i = j

namespace TableAt

open TableMem

variable {s s' : TableMem Id α} {t : HashTable ops α} {addrs : Nat → List ListHeadPtr}
  {p : ListHeadPtr} {i j fuel : Nat} {id : Id} {pri : α}

theorem getD_modify {β : Type} {l : List (List β)} {f : List β → List β} (hj : j < l.length) :
    (l.modify i f).getD j [] = if i = j then f (l.getD j []) else l.getD j [] := by
  rw [List.getD_eq_getElem?_getD, List.getD_eq_getElem?_getD, List.getElem?_modify,
    List.getElem?_eq_getElem hj]
  by_cases h : i = j <;> simp [h]

/-- All heads are linked to themselves. -/
theorem ring_initHeads {heads : Nat → ListHeadPtr} {is : List Nat} (hi : i ∈ is) (m : ListMem) :
    LinkedRing.Ring (initHeads heads is m) (heads i) [] := by
  unfold initHeads
  have hLater : ∀ (is : List Nat) (m : ListMem), LinkedRing.Ring m (heads i) [] →
      LinkedRing.Ring (initHeads heads is m) (heads i) [] := by
    intro is
    induction is with
    | nil => exact fun _ h => h
    | cons j is ih =>
      intro m h
      refine ih _ (show LinkedRing.Ring (m.listheadInit (heads j)) (heads i) [] from ?_)
      by_cases hj : heads j = heads i
      · rw [hj]
        exact LinkedRing.Ring.of_loop m (heads i)
      · exact h.loop_other fun hMem => hj (List.mem_singleton.mp hMem)
  induction is generalizing m with
  | nil => cases hi
  | cons j is ih =>
    rcases List.mem_cons.mp hi with rfl | hi
    · exact hLater is _ (LinkedRing.Ring.of_loop m (heads i))
    · exact ih hi _

/-- A new table. -/
theorem alloc {tabLen : Nat} {itemNum : ULong} {heads : Nat → ListHeadPtr} (hLen : 0 < tabLen)
    (hHeads : HeadsApart tabLen heads) (links : ListMem) :
    TableAt (allocHashTable Id α tabLen itemNum heads links)
      (HashTable.alloc ops α tabLen itemNum hLen) fun _ => [] where
  cache_eq := rfl
  len_eq   := (List.length_replicate ..).symm
  chain i hi := by
    refine ⟨Or.inl ⟨i, hi, rfl⟩, ring_initHeads (List.mem_range.mpr hi) links, ?_⟩
    have hChain : (List.replicate tabLen ([] : List (ContainerItem Id α))).getD i [] = [] := by
      simp [List.getD_eq_getElem?_getD, show i < tabLen from hi]
    rw [HashTable.alloc, hChain]
    rfl
  own _ hp := by cases hp
  apart i hi j hj hne p hp hpj := by
    rw [List.mem_singleton] at hp hpj
    exact hne (hHeads i hi j hj (hp.symm.trans hpj))

theorem index_eq (h : TableAt s t addrs) (id : Id) : t.index id = ops.hashId id s.tabLen := by
  rw [HashTable.index, h.len_eq]

theorem index_lt (h : TableAt s t addrs) (id : Id) : ops.hashId id s.tabLen < s.tabLen :=
  h.index_eq id ▸ h.len_eq ▸ t.index_lt id

/-- The chain an id hashes to. -/
theorem chain_at (h : TableAt s t addrs) (id : Id) :
    ChainAt s (s.headOf ops id) (addrs (ops.hashId id s.tabLen)) (t.chain id) := by
  rw [HashTable.chain, h.index_eq]
  exact h.chain _ (h.index_lt id)

/-- Memory that is found for an item is not in use. -/
theorem new_not_mem (h : TableAt s t addrs) (hp : ¬ s.There p) (hi : i < s.tabLen) :
    p ∉ s.heads i :: addrs i := fun hMem => hp ((h.chain i hi).there_of_mem hMem)

theorem find_eq (h : TableAt s t addrs) (hFuel : ∀ i < s.tabLen, (addrs i).length < fuel)
    (id : Id) : s.hfind ops fuel id = .ok (t.find id) :=
  (h.chain_at id).rwfind_eq (hFuel _ (h.index_lt id)) id

theorem map_range (h : TableAt s t addrs) :
    ((List.range s.tabLen).map fun i => t.hashTable.getD i []) = t.hashTable := by
  rw [h.len_eq]
  refine List.ext_getElem (by simp) fun i hi hi' => ?_
  simp [List.getD_eq_getElem?_getD, List.getElem?_eq_getElem hi']

theorem forEachDo_eq (h : TableAt s t addrs) (hFuel : ∀ i < s.tabLen, (addrs i).length < fuel) :
    s.forEachDo fuel = .ok t.items := by
  have hMap : ∀ is : List Nat, (∀ i ∈ is, i < s.tabLen) →
      is.mapM (fun i => s.rwForEachDo fuel (s.heads i)) =
        .ok (is.map fun i => t.hashTable.getD i []) := by
    intro is
    induction is with
    | nil => exact fun _ => rfl
    | cons i is ih =>
      intro hAll
      obtain ⟨hi, hAll⟩ := List.forall_mem_cons.mp hAll
      rw [List.mapM_cons, (h.chain i hi).rwForEachDo_eq (hFuel i hi), ih hAll]
      rfl
  unfold TableMem.forEachDo
  rw [hMap _ fun i hi => List.mem_range.mp hi, h.map_range]
  rfl

/-- Other chains do not see the new item. -/
theorem chain_got (h : TableAt s t addrs) (hp : ¬ s.There p) (cache : MemoryCache)
    (item : ContainerItem Id α) (hi : i < s.tabLen) :
    ChainAt (s.got cache p item) (s.heads i) (addrs i) (t.hashTable.getD i []) := by
  refine (h.chain i hi).congr (Or.inl ⟨i, hi, rfl⟩)
    ((h.chain i hi).ring.loop_other (h.new_not_mem hp hi)) fun x hx => items_got ?_
  rintro rfl
  exact h.new_not_mem hp hi (List.mem_cons_of_mem _ hx)

/-- An item that was rejected leaves the table as it was. -/
theorem rejected (h : TableAt s t addrs) (hp : ¬ s.There p) (cache : MemoryCache)
    (item : ContainerItem Id α) {t' : HashTable ops α} (hCache : t'.cache = cache.free)
    (hTable : t'.hashTable = t.hashTable) :
    TableAt ((s.got cache p item).gave p) t' addrs where
  cache_eq := hCache.symm
  len_eq   := hTable ▸ h.len_eq
  chain i hi := by
    rw [hTable]
    have hOld := h.chain_got hp cache item hi
    refine hOld.congr (Or.inl ⟨i, hi, rfl⟩) hOld.ring fun x hx => items_gave ?_
    rintro rfl
    exact h.new_not_mem hp hi (List.mem_cons_of_mem _ hx)
  own x hx := by
    by_cases hxp : x = p
    · rw [hxp, items_gave_self] at hx
      cases hx
    · rw [items_gave hxp, items_got hxp] at hx
      exact h.own x hx
  apart    := h.apart

/-- An item that goes in is at the head of its chain. -/
theorem linked (h : TableAt s t addrs) (hp : ¬ s.There p) (cache : MemoryCache)
    (hNone : t.find id = none) {t' : HashTable ops α} (hCache : t'.cache = cache)
    (hTable : t'.hashTable = t.hashTable.modify (t.index id) (rwinsert ops · id pri)) :
    TableAt { s.got cache p ⟨id, pri⟩ with
        links := (s.got cache p ⟨id, pri⟩).links.listAdd p (s.headOf ops id) } t'
      (Function.update addrs (ops.hashId id s.tabLen) (p :: addrs (ops.hashId id s.tabLen))) where
  cache_eq := hCache.symm
  len_eq   := by rw [hTable, List.length_modify]; exact h.len_eq
  chain j hj := by
    have hi := h.index_lt id
    have hOld := h.chain_got hp cache ⟨id, pri⟩ hj
    have hAt := h.chain_got hp cache ⟨id, pri⟩ hi
    rw [hTable, getD_modify (h.len_eq ▸ hj), h.index_eq]
    by_cases hij : ops.hashId id s.tabLen = j
    · subst hij
      rw [if_pos rfl, Function.update_self]
      refine ⟨Or.inl ⟨_, hi, rfl⟩, hAt.ring.link_first (h.new_not_mem hp hi), ?_⟩
      have hChain : t.hashTable.getD (ops.hashId id s.tabLen) [] = t.chain id := by
        rw [HashTable.chain, h.index_eq]
      rw [List.map_cons, hAt.content, hChain, SafeRwList.rwinsert,
        if_pos (Option.isNone_iff_eq_none.mpr (show rwfind ops (t.chain id) id = none from hNone)),
        List.map_cons]
      exact congrArg (· :: _) (items_got_self s cache p ⟨id, pri⟩)
    · rw [if_neg hij, Function.update_of_ne (Ne.symm hij)]
      have hHere : ∀ x ∈ s.headOf ops id :: addrs (ops.hashId id s.tabLen),
          x ∉ s.heads j :: addrs j := h.apart _ hi j hj hij
      refine hOld.congr (Or.inl ⟨j, hj, rfl⟩) (hOld.ring.link_other (h.new_not_mem hp hj)
        (hHere _ List.mem_cons_self) (hHere _ ?_)) fun _ _ => rfl
      exact (hAt.ring.links_mem List.mem_cons_self).1
  own x hx := by
    by_cases hxp : x = p
    · refine ⟨_, h.index_lt id, ?_⟩
      rw [Function.update_self, hxp]
      exact List.mem_cons_self
    · have hx : (s.got cache p ⟨id, pri⟩).items x |>.isSome := hx
      rw [items_got hxp] at hx
      obtain ⟨j, hj, hMem⟩ := h.own x hx
      refine ⟨j, hj, ?_⟩
      by_cases hij : j = ops.hashId id s.tabLen
      · subst hij
        rw [Function.update_self]
        exact List.mem_cons_of_mem _ hMem
      · rwa [Function.update_of_ne hij]
  apart j hj k hk hjk x hx hxk := by
    have hMem : ∀ {k}, x ∈ s.heads k :: Function.update addrs (ops.hashId id s.tabLen)
        (p :: addrs (ops.hashId id s.tabLen)) k →
        (x = p ∧ k = ops.hashId id s.tabLen) ∨ x ∈ s.heads k :: addrs k := by
      intro k hx
      by_cases hk : k = ops.hashId id s.tabLen
      · subst hk
        rw [Function.update_self] at hx
        simp only [List.mem_cons] at hx ⊢
        tauto
      · rw [Function.update_of_ne hk] at hx
        exact Or.inr hx
    rcases hMem hx with ⟨rfl, rfl⟩ | hx <;> rcases hMem hxk with ⟨hxp, rfl⟩ | hxk
    · exact hjk rfl
    · exact h.new_not_mem hp hk hxk
    · exact h.new_not_mem hp hj (hxp ▸ hx)
    · exact h.apart j hj k hk hjk x hx hxk

/-- **An insertion** in memory. -/
theorem insert (h : TableAt s t addrs) (hFuel : ∀ i < s.tabLen, (addrs i).length < fuel)
    (hp : ¬ s.There p) {res : HashTable ops α × TableError} (hInsert : t.insert id pri = some res) :
    ∃ s' addrs', s.hinsert ops fuel p id pri = .ok (s', res.2) ∧ TableAt s' res.1 addrs' := by
  obtain ⟨cache, hCache, rfl⟩ := Option.map_eq_some_iff.mp hInsert
  have hi := h.index_lt id
  have hAt : ChainAt (s.got cache p ⟨id, pri⟩) (s.headOf ops id) (addrs (ops.hashId id s.tabLen))
      (t.chain id) := by
    rw [HashTable.chain, h.index_eq]
    exact h.chain_got hp cache ⟨id, pri⟩ hi
  have hFind : (s.got cache p ⟨id, pri⟩).rwfindNolock ops fuel (s.headOf ops id) id =
      .ok (t.find id) := hAt.rwfind_eq (hFuel _ hi) id
  unfold TableMem.hinsert TableMem.rwinsert
  rw [allocItem_eq (h.cache_eq ▸ hCache)]
  simp only [bind, Except.bind, hFind]
  cases hFound : t.find id with
  | some a =>
    refine ⟨_, addrs, ?_, h.rejected hp cache ⟨id, pri⟩ rfl rfl⟩
    simp only [freeItem_eq (items_got_self s cache p ⟨id, pri⟩)]
    rfl
  | none =>
    refine ⟨_, _, ?_, h.linked hp cache hFound rfl rfl⟩
    have hTouch : (s.got cache p ⟨id, pri⟩).touch [s.headOf ops id,
        (s.got cache p ⟨id, pri⟩).links.next (s.headOf ops id), p] = .ok () := by
      refine touch_eq fun x hx => ?_
      rcases List.mem_cons.mp hx with rfl | hx
      · exact hAt.there
      · rcases List.mem_cons.mp hx with rfl | hx
        · exact hAt.there_of_mem (hAt.ring.links_mem List.mem_cons_self).1
        · rw [List.mem_singleton.mp hx]
          exact there_of_item (items_got_self s cache p ⟨id, pri⟩)
    simp only [hTouch]
    rfl

/-- An item that comes out is freed. -/
theorem erased (h : TableAt s t addrs) {l₁ l₂ : List ListHeadPtr} {pos : ListHeadPtr}
    {c₁ c₂ : List (ContainerItem Id α)}
    (hAddrs : addrs (ops.hashId id s.tabLen) = l₁ ++ pos :: l₂)
    (hBefore : l₁.map s.items = c₁.map some) (hAfter : l₂.map s.items = c₂.map some)
    (hErase : SafeRwList.rwerase ops (t.chain id) id = c₁ ++ c₂) {t' : HashTable ops α}
    (hCache : t'.cache = t.cache.free)
    (hTable : t'.hashTable = t.hashTable.modify (t.index id) (SafeRwList.rwerase ops · id)) :
    TableAt (({ s with links := s.links.listDel pos } : TableMem Id α).gave pos) t'
      (Function.update addrs (ops.hashId id s.tabLen) (l₁ ++ l₂)) := by
  have hi := h.index_lt id
  have hRing := (h.chain _ hi).ring
  rw [hAddrs] at hRing
  have hHere : pos ∈ s.heads (ops.hashId id s.tabLen) :: (l₁ ++ pos :: l₂) :=
    List.mem_cons_of_mem _ (List.mem_append_right _ List.mem_cons_self)
  have hGone : pos ∉ l₁ ++ l₂ := by
    have hApart := (List.nodup_cons.mp hRing.apart).2
    rw [List.nodup_middle] at hApart
    exact (List.nodup_cons.mp hApart).1
  have hSub : ∀ {k x},
      x ∈ s.heads k :: Function.update addrs (ops.hashId id s.tabLen) (l₁ ++ l₂) k →
      x ∈ s.heads k :: addrs k := by
    intro k x hx
    by_cases hk : k = ops.hashId id s.tabLen
    · subst hk
      rw [Function.update_self] at hx
      rw [hAddrs]
      simp only [List.mem_cons, List.mem_append] at hx ⊢
      tauto
    · rwa [Function.update_of_ne hk] at hx
  refine {
    cache_eq := (congrArg MemoryCache.free h.cache_eq).trans hCache.symm
    len_eq   := by rw [hTable, List.length_modify]; exact h.len_eq
    chain    := fun j hj => ?_
    own      := fun x hx => ?_
    apart    := fun j hj k hk hjk x hx hxk => h.apart j hj k hk hjk x (hSub hx) (hSub hxk) }
  · rw [hTable, getD_modify (h.len_eq ▸ hj), h.index_eq]
    by_cases hij : ops.hashId id s.tabLen = j
    · subst hij
      rw [if_pos rfl, Function.update_self]
      have hChain : t.hashTable.getD (ops.hashId id s.tabLen) [] = t.chain id := by
        rw [HashTable.chain, h.index_eq]
      refine ⟨Or.inl ⟨_, hi, rfl⟩, hRing.remove, ?_⟩
      have hLeft : (l₁ ++ l₂).map s.items = (c₁ ++ c₂).map some := by
        rw [List.map_append, List.map_append, hBefore, hAfter]
      rw [hChain, hErase, ← hLeft]
      exact List.map_congr_left fun x hx => items_gave fun heq => hGone (heq ▸ hx)
    · rw [if_neg hij, Function.update_of_ne (Ne.symm hij)]
      have hApart : ∀ x ∈ s.heads (ops.hashId id s.tabLen) :: (l₁ ++ pos :: l₂),
          x ∉ s.heads j :: addrs j := fun x hx => h.apart _ hi j hj hij x (hAddrs ▸ hx)
      obtain ⟨hNext, hPrev⟩ := hRing.links_mem hHere
      have hOld := h.chain j hj
      refine hOld.congr (Or.inl ⟨j, hj, rfl⟩)
        (hOld.ring.remove_other (hApart _ hNext) (hApart _ hPrev)) fun x hx => items_gave ?_
      rintro rfl
      exact hApart x hHere (List.mem_cons_of_mem _ hx)
  · have hxp : x ≠ pos := by
      rintro rfl
      rw [items_gave_self] at hx
      cases hx
    rw [items_gave hxp] at hx
    obtain ⟨j, hj, hMem⟩ := h.own x hx
    refine ⟨j, hj, ?_⟩
    by_cases hij : j = ops.hashId id s.tabLen
    · subst hij
      rw [Function.update_self]
      rw [hAddrs] at hMem
      simp only [List.mem_append, List.mem_cons] at hMem ⊢
      tauto
    · rwa [Function.update_of_ne hij]

/-- **An erasure** in memory. -/
theorem erase (h : TableAt s t addrs) (hFuel : ∀ i < s.tabLen, (addrs i).length < fuel) (id : Id) :
    ∃ s' addrs', s.herase ops fuel id = .ok (s', (t.erase id).2) ∧
      TableAt s' (t.erase id).1 addrs' := by
  have hAt := h.chain_at id
  have hFuelHere := hFuel _ (h.index_lt id)
  obtain ⟨found, hWalk, hFound⟩ := hAt.findFrom_eq ops hFuelHere id
  unfold TableMem.herase TableMem.rwerase
  rw [hAt.nextOf_head]
  simp only [bind, Except.bind, hWalk]
  cases hFound with
  | missing hAll =>
    have hNone : t.find id = none := rwfind_eq_none_iff.mpr hAll
    rw [HashTable.erase, hNone]
    exact ⟨s, addrs, rfl, h⟩
  | @here l₁ l₂ pos c₁ c₂ item hl hc h₁ hpos h₂ hSame hBefore =>
    have hFind : t.find id = some item.pri := (congrArg (rwfind ops · id) hc).trans
      (rwfind_first hBefore hSame)
    have hErase : SafeRwList.rwerase ops (t.chain id) id = c₁ ++ c₂ :=
      (congrArg (SafeRwList.rwerase ops · id) hc).trans (rwerase_first hBefore hSame)
    have hMem : pos ∈ addrs (ops.hashId id s.tabLen) :=
      hl ▸ List.mem_append_right l₁ List.mem_cons_self
    have hTouch : s.touch [pos, s.links.prev pos, s.links.next pos] = .ok () := by
      obtain ⟨hNext, hPrev⟩ := hAt.ring.links_mem (List.mem_cons_of_mem _ hMem)
      simpa [touch] using ⟨there_of_item hpos, hAt.there_of_mem hPrev, hAt.there_of_mem hNext⟩
    have hItem : ({ s with links := s.links.listDel pos } : TableMem Id α).items pos = some item :=
      hpos
    simp only [hTouch, itemAt_eq hItem, freeItem_eq hItem, HashTable.erase, hFind]
    exact ⟨_, _, rfl, h.erased hl h₁ h₂ hErase rfl rfl⟩

/-- An empty chain is cleared. -/
theorem rwclear_empty (h : TableAt s t addrs) (hi : i < s.tabLen) (hEmpty : addrs i = [])
    (hFuel : 0 < fuel) :
    s.rwclear fuel (s.heads i) = .ok { s with links := s.links.listheadInit (s.heads i) } ∧
      TableAt { s with links := s.links.listheadInit (s.heads i) } t addrs := by
  obtain ⟨fuel, rfl⟩ := Nat.exists_eq_succ_of_ne_zero (Nat.ne_of_gt hFuel)
  refine ⟨?_, { h with chain := fun j hj => ?_ }⟩
  · unfold TableMem.rwclear
    rw [(h.chain i hi).nextOf_head, hEmpty]
    simp only [bind, Except.bind, List.headD_nil, TableMem.clearFrom, if_true]
    rfl
  · have hOld := h.chain j hj
    by_cases hij : i = j
    · subst hij
      rw [hEmpty] at hOld ⊢
      exact hOld.congr (Or.inl ⟨i, hi, rfl⟩) (LinkedRing.Ring.of_loop _ _) fun _ _ => rfl
    · exact hOld.congr (Or.inl ⟨j, hj, rfl⟩)
        (hOld.ring.loop_other (h.apart i hi j hj hij _ List.mem_cons_self)) fun _ _ => rfl

/-- The first item is read after it was freed. -/
theorem rwclear_error (h : TableAt s t addrs) (hi : i < s.tabLen) (hSome : addrs i ≠ [])
    (hFuel : 0 < fuel) : s.rwclear fuel (s.heads i) = .error .invalid := by
  obtain ⟨fuel, rfl⟩ := Nat.exists_eq_succ_of_ne_zero (Nat.ne_of_gt hFuel)
  obtain ⟨x, rest, hAddrs⟩ := List.exists_cons_of_ne_nil hSome
  have hx : x ∈ addrs i := hAddrs ▸ List.mem_cons_self
  have hne : x ≠ s.heads i := fun heq => (h.chain i hi).ring.head_not_mem (heq ▸ hx)
  have hThere : (s.items x).isSome := by
    have hItem := (h.chain i hi).content
    rw [hAddrs, List.map_cons] at hItem
    obtain ⟨item, -, -, hx, -⟩ := List.map_eq_cons_iff.mp hItem.symm
    rw [← hx]
    rfl
  obtain ⟨item, hItem⟩ := Option.isSome_iff_exists.mp hThere
  have hGone : ¬ (s.gave x).There x := by
    rintro (⟨j, hj, hHead⟩ | hLeft)
    · have hHead : s.heads j = x := hHead
      by_cases hij : i = j
      · exact hne (hij ▸ hHead.symm)
      · refine h.apart i hi j hj hij x (List.mem_cons_of_mem _ hx) ?_
        rw [hHead]
        exact List.mem_cons_self
    · rw [items_gave_self] at hLeft
      cases hLeft
  unfold TableMem.rwclear
  rw [(h.chain i hi).nextOf_head, hAddrs]
  simp only [bind, Except.bind, List.headD_cons, TableMem.clearFrom, if_neg hne, freeItem_eq hItem,
    nextOf_error hGone]

/-- **Clearing** goes through the chains up to the first that is not empty. -/
theorem freeHashTable_eq (h : TableAt s t addrs) (hFuel : 0 < fuel) :
    ((∀ i < s.tabLen, addrs i = []) → ∃ s', s.freeHashTable fuel = .ok s') ∧
      ((∃ i < s.tabLen, addrs i ≠ []) → s.freeHashTable fuel = .error .invalid) := by
  have hAll : ∀ (is : List Nat) (s : TableMem Id α), TableAt s t addrs → (∀ i ∈ is, i < s.tabLen) →
      ((∀ i ∈ is, addrs i = []) →
        ∃ s', is.foldlM (fun s i => s.rwclear fuel (s.heads i)) s = Except.ok s') ∧
      ((∃ i ∈ is, addrs i ≠ []) →
        is.foldlM (fun s i => s.rwclear fuel (s.heads i)) s = Except.error ChainFault.invalid) := by
    intro is
    induction is with
    | nil => exact fun s _ _ => ⟨fun _ => ⟨s, rfl⟩, fun ⟨i, hi, _⟩ => absurd hi List.not_mem_nil⟩
    | cons i is ih =>
      intro s h hIn
      obtain ⟨hi, hIn⟩ := List.forall_mem_cons.mp hIn
      rw [List.foldlM_cons]
      by_cases hEmpty : addrs i = []
      · obtain ⟨hClear, hAt⟩ := h.rwclear_empty hi hEmpty hFuel
        have hRest := ih _ hAt hIn
        rw [hClear]
        refine ⟨fun hAll => hRest.1 (List.forall_mem_cons.mp hAll).2, ?_⟩
        rintro ⟨j, hj, hne⟩
        rcases List.mem_cons.mp hj with rfl | hj
        · exact absurd hEmpty hne
        · exact hRest.2 ⟨j, hj, hne⟩
      · rw [h.rwclear_error hi hEmpty hFuel]
        exact ⟨fun hAll => absurd (hAll i List.mem_cons_self) hEmpty, fun _ => rfl⟩
  have hRange := hAll (List.range s.tabLen) s h fun i hi => List.mem_range.mp hi
  simp only [List.mem_range] at hRange
  exact hRange

-- ---------------------------------------------------------------------------
-- How many items there are
-- ---------------------------------------------------------------------------

theorem size_eq_length (t : HashTable ops α) : t.size = t.items.length := by
  simp [HashTable.size, HashTable.toMap, Finmap.keys, Multiset.keys]

theorem length_le (h : TableAt s t addrs) (hi : i < s.tabLen) : (addrs i).length ≤ t.size := by
  have hMem : t.hashTable.getD i [] ∈ (List.range s.tabLen).map fun i => t.hashTable.getD i [] :=
    List.mem_map.mpr ⟨i, List.mem_range.mpr hi, rfl⟩
  rw [h.map_range] at hMem
  rw [(h.chain i hi).length_eq, size_eq_length, HashTable.items]
  exact (List.sublist_flatten_of_mem hMem).length_le

/-- The items that are there, each once. -/
theorem exists_finset (h : TableAt s t addrs) :
    ∃ there : Finset ListHeadPtr, (∀ p, p ∈ there ↔ (s.items p).isSome) ∧ there.card = t.size := by
  have hNodup : ((List.range s.tabLen).flatMap addrs).Nodup := by
    refine List.nodup_flatMap.mpr ⟨fun i hi => ?_, ?_⟩
    · exact (List.nodup_cons.mp (h.chain i (List.mem_range.mp hi)).ring.apart).2
    · refine List.pairwise_iff_getElem.mpr fun i j hi hj hLess x hx hxj => ?_
      rw [List.getElem_range] at hx hxj
      rw [List.length_range] at hi hj
      exact h.apart i hi j hj (Nat.ne_of_lt hLess) x (List.mem_cons_of_mem _ hx)
        (List.mem_cons_of_mem _ hxj)
  have hLength : ((List.range s.tabLen).flatMap addrs).length = t.items.length := by
    have hEach : (List.range s.tabLen).map (fun i => (addrs i).length) =
        (List.range s.tabLen).map fun i => (t.hashTable.getD i []).length :=
      List.map_congr_left fun i hi => (h.chain i (List.mem_range.mp hi)).length_eq
    rw [List.length_flatMap, hEach, HashTable.items, List.length_flatten]
    conv_rhs => rw [← h.map_range, List.map_map]
    rfl
  refine ⟨⟨↑((List.range s.tabLen).flatMap addrs), hNodup⟩, fun p => ?_, ?_⟩
  · show p ∈ (List.range s.tabLen).flatMap addrs ↔ _
    rw [List.mem_flatMap]
    constructor
    · rintro ⟨i, hi, hp⟩
      have hSome : s.items p ∈ (t.hashTable.getD i []).map some :=
        (h.chain i (List.mem_range.mp hi)).content ▸ List.mem_map_of_mem hp
      obtain ⟨item, -, hItem⟩ := List.mem_map.mp hSome
      rw [← hItem]
      rfl
    · intro hp
      obtain ⟨i, hi, hp⟩ := h.own p hp
      exact ⟨i, List.mem_range.mpr hi, hp⟩
  · rw [size_eq_length, ← hLength]
    rfl

/-- A table is empty if all its chains are. -/
theorem toMap_eq_empty_iff (h : TableAt s t addrs) :
    t.toMap = ∅ ↔ ∀ i < s.tabLen, addrs i = [] := by
  have hNil : t.toMap = ∅ ↔ t.items = [] := by
    constructor
    · intro hEmpty
      have hSize : t.size = 0 := by
        rw [HashTable.size, hEmpty, Finmap.keys_empty, Finset.card_empty]
      exact List.length_eq_zero_iff.mp (size_eq_length t ▸ hSize)
    · intro hEmpty
      refine HashTable.toMap_eq fun x => ?_
      rw [Finmap.lookup_empty, Option.eq_none_iff_forall_ne_some]
      intro pri hFind
      obtain ⟨item, hItem, -⟩ := HashTable.find_eq_some_iff.mp hFind
      rw [hEmpty] at hItem
      cases hItem
  rw [hNil, HashTable.items, ← h.map_range, List.flatten_eq_nil_iff]
  simp only [List.forall_mem_map, List.mem_range]
  refine forall₂_congr fun i hi => ?_
  rw [← List.length_eq_zero_iff, ← (h.chain i hi).length_eq, List.length_eq_zero_iff]

end TableAt

-- ---------------------------------------------------------------------------
-- Calls
-- ---------------------------------------------------------------------------

/-- The calls on a table in memory. With each comes where memory is found for an
item; a call that goes through at most `fuel` items ends. -/
def linkMachine (ops : IdOps Id) (α : Type) (fuel : Nat) :
    Machine (TableMem Id α) (TableOp Id α × ListHeadPtr) (TableAnswer ops α) where
  step s
    | (.insert id pri, p) =>
      (s.hinsert ops fuel p id pri).toOption.map fun res => (res.1, .inserted res.2)
    | (.erase id, _) => (s.herase ops fuel id).toOption.map fun res => (res.1, .erased res.2)
    | (.find id, _) => (s.hfind ops fuel id).toOption.map fun pri => (s, .found pri)
    | (.forEachDo, _) => (s.forEachDo fuel).toOption.map fun items =>
      (s, .visited ↑(items.map (HashTable.binding ops)))

/-- An insertion finds a free item, in memory that is not in use. -/
def CellFree (s : TableMem Id α) : TableOp Id α × ListHeadPtr → Prop
  | (.insert _ _, p) => s.cache.alloc.isSome ∧ ¬ s.There p
  | _ => True

instance (s : TableMem Id α) :
    (call : TableOp Id α × ListHeadPtr) → Decidable (CellFree s call)
  | (.insert _ _, p) => inferInstanceAs (Decidable (_ ∧ ¬ s.There p))
  | (.erase _, _) => inferInstanceAs (Decidable True)
  | (.find _, _) => inferInstanceAs (Decidable True)
  | (.forEachDo, _) => inferInstanceAs (Decidable True)

variable {s : TableMem Id α} {t : HashTable ops α} {addrs : Nat → List ListHeadPtr}
  {itemNum : ULong} {fuel : Nat}

/-- **One call** in memory does to it what the call does to the table. -/
theorem TableAt.step (h : TableAt s t addrs) (hHolds : t.cache.Holds itemNum t.size)
    (hFuel : itemNum.toNat < fuel) {op : TableOp Id α} {p : ListHeadPtr}
    (hRoom : CellFree s (op, p)) {t' : HashTable ops α} {out : TableAnswer ops α}
    (hStep : (tableMachine ops α).step t op = some (t', out)) :
    ∃ s' addrs', (linkMachine ops α fuel).step s (op, p) = some (s', out) ∧ TableAt s' t' addrs' ∧
      t'.cache.Holds itemNum t'.size := by
  have hLength : ∀ i < s.tabLen, (addrs i).length < fuel := fun i hi =>
    Nat.lt_of_le_of_lt ((h.length_le hi).trans hHolds.le) hFuel
  cases op with
  | insert id pri =>
    obtain ⟨⟨t₁, err⟩, hInsert, heq⟩ := Option.map_eq_some_iff.mp hStep
    obtain ⟨rfl, rfl⟩ := Prod.mk.inj heq
    obtain ⟨s', addrs', hLinks, hAt⟩ := h.insert hLength hRoom.2 hInsert
    refine ⟨s', addrs', ?_, hAt, ?_⟩
    · simp only [linkMachine, hLinks]
      rfl
    · obtain ⟨cache, hCache, hAfter⟩ := HashTable.cache_insert hInsert
      have hMore := hHolds.alloc hCache
      simp only at hAfter ⊢
      rw [hAfter]
      rcases HashTable.insert_cases hInsert with hErr | hErr <;> simp only at hErr <;> subst hErr
      · rw [if_pos rfl, HashTable.size_insert hInsert]
        exact hMore
      · have hSize : t₁.size = t.size := by
          rw [HashTable.size, HashTable.toMap_insert_exist hInsert, HashTable.size]
        rw [if_neg (by simp), hSize]
        exact hMore.free
  | erase id =>
    obtain ⟨rfl, rfl⟩ := Prod.mk.inj (Option.some.inj hStep)
    obtain ⟨s', addrs', hLinks, hAt⟩ := h.erase hLength id
    refine ⟨s', addrs', ?_, hAt, ?_⟩
    · simp only [linkMachine, hLinks]
      rfl
    · rw [HashTable.cache_erase]
      split
      · rename_i hSome
        rw [← HashTable.size_erase hSome] at hHolds
        exact hHolds.free
      · rename_i hNone
        have hSame : (t.erase id).1 = t := by
          rw [HashTable.erase, Option.not_isSome_iff_eq_none.mp hNone]
        rwa [hSame]
  | find id =>
    obtain ⟨rfl, rfl⟩ := Prod.mk.inj (Option.some.inj hStep)
    refine ⟨s, addrs, ?_, h, hHolds⟩
    simp only [linkMachine, h.find_eq hLength]
    rfl
  | forEachDo =>
    obtain ⟨rfl, rfl⟩ := Prod.mk.inj (Option.some.inj hStep)
    refine ⟨s, addrs, ?_, h, hHolds⟩
    simp only [linkMachine, h.forEachDo_eq hLength, HashTable.visited_eq]
    rfl

/-- The map that a table in memory stands for. -/
def MapAt (ops : IdOps Id) (itemNum : ULong) (s : TableMem Id α)
    (m : Finmap fun _ : IdClass ops => α) : Prop :=
  ∃ (t : HashTable ops α) (addrs : Nat → List ListHeadPtr),
    TableAt s t addrs ∧ t.cache.Holds itemNum t.size ∧ t.toMap = m

/-- Every call in memory answers as on the map. -/
theorem links_refine_map (hFuel : itemNum.toNat < fuel) :
    Refines (linkMachine ops α fuel) ((mapMachine ops α).comap Prod.fst) (MapAt ops itemNum)
      CellFree := by
  rintro s m ⟨op, p⟩ ⟨t, addrs, hAt, hHolds, rfl⟩ hRoom
  have hItem : HasItem t op := by
    cases op with
    | insert id pri =>
      show t.cache.alloc.isSome
      rw [← hAt.cache_eq]
      exact hRoom.1
    | _ => trivial
  obtain ⟨t', m', out, hTable, hMap, hMapAt⟩ := table_refines_map t t.toMap op rfl hItem
  obtain ⟨s', addrs', hLinks, hAt', hHolds'⟩ := hAt.step hHolds hFuel hRoom hTable
  exact ⟨s', m', out, hLinks, hMap, t', addrs', hAt', hHolds', hMapAt⟩

theorem mapAt_alloc {tabLen : Nat} {heads : Nat → ListHeadPtr} (hLen : 0 < tabLen)
    (hHeads : HeadsApart tabLen heads) (links : ListMem) :
    MapAt ops itemNum (.allocHashTable Id α tabLen itemNum heads links) ∅ := by
  refine ⟨_, _, TableAt.alloc hLen hHeads links, ?_, HashTable.toMap_alloc⟩
  rw [HashTable.size_alloc]
  exact MemoryCache.Holds.init itemNum

section Runs

variable {tabLen : Nat} {heads : Nat → ListHeadPtr} {links : ListMem}
  {calls : List (TableOp Id α × ListHeadPtr)}

/-- **Chains are a finite map.** Whatever memory is found for the items of a new
table, no call reads, writes or frees what is not there, all answer as on the
empty map, and the items that are there are as many as the map has ids. -/
theorem chains_are_finite_map (hLen : 0 < tabLen) (hHeads : HeadsApart tabLen heads)
    (hFuel : itemNum.toNat < fuel)
    (hRoom : (linkMachine ops α fuel).Within CellFree
      (.allocHashTable Id α tabLen itemNum heads links) calls) :
    ∃ s' m' answers,
      (linkMachine ops α fuel).run (.allocHashTable Id α tabLen itemNum heads links) calls =
        some (s', answers) ∧
      (mapMachine ops α).run ∅ (calls.map Prod.fst) = some (m', answers) ∧
      ∃ there : Finset ListHeadPtr, (∀ p, p ∈ there ↔ (s'.items p).isSome) ∧
        there.card = m'.keys.card := by
  obtain ⟨s', m', answers, hLinks, hMap, t, addrs, hAt, -, rfl⟩ :=
    (links_refine_map hFuel).run (mapAt_alloc hLen hHeads links) hRoom
  exact ⟨s', t.toMap, answers, hLinks, Machine.run_comap Prod.fst _ _ calls ▸ hMap,
    hAt.exists_finset⟩

/-- **`free_hash_table` is safe only on an empty table.** After any calls, it
goes through if no id is left, and reads a link of an item that it has freed if
there is one. -/
theorem free_hash_table_safe_iff (hLen : 0 < tabLen) (hHeads : HeadsApart tabLen heads)
    (hFuel : itemNum.toNat < fuel)
    (hRoom : (linkMachine ops α fuel).Within CellFree
      (.allocHashTable Id α tabLen itemNum heads links) calls)
    {s' : TableMem Id α} {m' : Finmap fun _ : IdClass ops => α} {answers : List (TableAnswer ops α)}
    (hLinks : (linkMachine ops α fuel).run (.allocHashTable Id α tabLen itemNum heads links) calls =
      some (s', answers))
    (hMap : (mapMachine ops α).run ∅ (calls.map Prod.fst) = some (m', answers)) :
    (m' = ∅ → ∃ s'', s'.freeHashTable fuel = .ok s'') ∧
      (m' ≠ ∅ → s'.freeHashTable fuel = .error .invalid) := by
  obtain ⟨s₁, m₁, answers₁, hLinks₁, hMap₁, t, addrs, hAt, -, rfl⟩ :=
    (links_refine_map hFuel).run (mapAt_alloc hLen hHeads links) hRoom
  rw [Machine.run_comap, hMap] at hMap₁
  rw [hLinks] at hLinks₁
  obtain ⟨rfl, -⟩ := Prod.mk.inj (Option.some.inj hLinks₁)
  obtain ⟨rfl, -⟩ := Prod.mk.inj (Option.some.inj hMap₁)
  obtain ⟨hEmpty, hLeft⟩ := hAt.freeHashTable_eq (Nat.zero_lt_of_lt hFuel)
  refine ⟨fun hNone => hEmpty (hAt.toMap_eq_empty_iff.mp hNone), fun hSome => hLeft ?_⟩
  by_contra hNot
  push Not at hNot
  exact hSome (hAt.toMap_eq_empty_iff.mpr hNot)

end Runs

section TwoIds

/-- A table of one chain, at 0. -/
def oneChain : TableMem Nat Nat := .allocHashTable Nat Nat 1 2 (fun _ => 0) ⟨id, id⟩

/-- The second item is where the first one was. -/
def reusingCalls : List (TableOp Nat Nat × ListHeadPtr) :=
  [(.insert 1 10, 5), (.erase 1, 0), (.insert 2 20, 5)]

theorem reusingCalls_within : (linkMachine IdOps.nat Nat 3).Within CellFree oneChain reusingCalls :=
  .cons rfl (by decide) (.cons rfl trivial (.cons rfl (by decide) trivial))

theorem headsApart_one : HeadsApart 1 fun _ => 0 := fun i hi j hj _ => by omega

theorem chains_are_finite_map_reusing : ∃ s' m' answers,
    (linkMachine IdOps.nat Nat 3).run oneChain reusingCalls = some (s', answers) ∧
    (mapMachine IdOps.nat Nat).run ∅ (reusingCalls.map Prod.fst) = some (m', answers) ∧
    ∃ there : Finset ListHeadPtr, (∀ p, p ∈ there ↔ (s'.items p).isSome) ∧
      there.card = m'.keys.card :=
  chains_are_finite_map Nat.one_pos headsApart_one (by decide) reusingCalls_within

theorem free_hash_table_safe_iff_one_id : ∃ s' answers,
    (linkMachine IdOps.nat Nat 3).run oneChain [(.insert 2 20, 5)] = some (s', answers) ∧
      s'.freeHashTable 3 = .error .invalid := by
  have hRoom : (linkMachine IdOps.nat Nat 3).Within CellFree oneChain [(.insert 2 20, 5)] :=
    .cons rfl (by decide) trivial
  have hMap : (mapMachine IdOps.nat Nat).run ∅ [.insert 2 20] =
      some (Finmap.insert (IdOps.nat.classOf 2) 20 ∅, [.inserted .ok]) := by
    simp [Machine.run, mapMachine, Finmap.notMem_empty]
  have hSome :
      (Finmap.insert (IdOps.nat.classOf 2) 20 ∅ : Finmap fun _ : IdClass IdOps.nat => Nat) ≠ ∅ :=
    fun heq => Finmap.notMem_empty (heq ▸ Finmap.mem_insert.mpr (Or.inl rfl))
  obtain ⟨s', m', answers, hLinks, hAnswers, -⟩ := (links_refine_map (by decide)).run
    (mapAt_alloc Nat.one_pos headsApart_one ⟨id, id⟩) hRoom
  rw [Machine.run_comap] at hAnswers
  obtain ⟨rfl, rfl⟩ := Prod.mk.inj (Option.some.inj (hMap.symm.trans hAnswers))
  exact ⟨s', _, hLinks,
    (free_hash_table_safe_iff Nat.one_pos headsApart_one (by decide) hRoom hLinks hMap).2 hSome⟩

end TwoIds

end DatastorQos
