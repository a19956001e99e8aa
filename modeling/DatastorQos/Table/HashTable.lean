import DatastorQos.Table.MemoryCache
import Mathlib.Data.List.Basic

/-!
# hash_table — the chained hash table both sides keep their nodes in

The model of `safe_rw_list.c` (one chain) and `hash_table.c` (the array of
chains), with one item cache for all chains. The `compare` and `hash_id`
callbacks come with what their documentation promises (`IdOps`), and a table
carries its own well-formedness: every item is in the chain its id hashes to,
and no two items of a chain have the same id. So the table is a finite map on
ids up to `compare`: `find_insert`, `find_erase` and `find_write` are all that
its users need.

`find` hands out the stored pointer, and the caller writes through it. Here the
value is stored in the item, and such a write is `write`.
-/

namespace DatastorQos

/-- `msg_ops_t`'s `compare` and `hash_id`, with what `sysqos_interface.h` asks
of them: `compare` is zero on ids that name the same resource, `hash_id` stays
within the table and does not tell such ids apart. -/
structure IdOps (Id : Type) where
  compare    : Id → Id → Int
  hashId     : Id → Nat → Nat
  same_equiv : Equivalence fun a b => compare a b = 0
  hash_lt    : ∀ id len, 0 < len → hashId id len < len
  hash_congr : ∀ a b len, compare a b = 0 → hashId a len = hashId b len

/-- The two ids name the same resource. -/
def IdOps.Same {Id : Type} (ops : IdOps Id) (a b : Id) : Prop := ops.compare a b = 0

instance {Id : Type} (ops : IdOps Id) (a b : Id) : Decidable (ops.Same a b) :=
  inferInstanceAs (Decidable (_ = _))

section Same

variable {Id : Type} {ops : IdOps Id} {a b c : Id}

theorem IdOps.same_refl (ops : IdOps Id) (a : Id) : ops.Same a a := ops.same_equiv.refl a

theorem IdOps.Same.symm (h : ops.Same a b) : ops.Same b a := ops.same_equiv.symm h

theorem IdOps.Same.trans (h : ops.Same a b) (h' : ops.Same b c) : ops.Same a c :=
  ops.same_equiv.trans h h'

/-- What is chosen by an id does not depend on which of the equal ids it is. -/
theorem IdOps.Same.ite_congr {β : Type*} {id a b : Id} (h : ops.Same a b) {v va vb : β}
    (heq : va = vb) : (if ops.Same id a then v else va) = if ops.Same id b then v else vb := by
  subst heq
  by_cases hid : ops.Same id a
  · rw [if_pos hid, if_pos (hid.trans h)]
  · rw [if_neg hid, if_neg fun hid' => hid (hid'.trans h.symm)]

theorem IdOps.Same.congr_left (h : ops.Same a b) : ops.Same a c ↔ ops.Same b c :=
  ⟨h.symm.trans, h.trans⟩

theorem IdOps.Same.hash_eq (h : ops.Same a b) (len : Nat) : ops.hashId a len = ops.hashId b len :=
  ops.hash_congr a b len h

end Same

/-- Numbers as ids. -/
def IdOps.nat : IdOps Nat where
  compare a b   := (a : Int) - b
  hashId id len := id % len
  same_equiv    := ⟨fun _ => by omega, fun h => by omega, fun h h' => by omega⟩
  hash_lt       := fun id _ h => Nat.mod_lt id h
  hash_congr    := fun a b len h => by
    have : a = b := by omega
    rw [this]

/-- `qos_container_item_t`. -/
structure ContainerItem (Id α : Type) where
  id  : Id
  pri : α
  deriving DecidableEq, Repr

/-- The `safe_rw_list_error_*` codes of `insert` and `erase`. -/
inductive TableError where
  | ok
  | notfound
  | exist
  deriving DecidableEq, Repr

variable {Id α : Type}

-- ---------------------------------------------------------------------------
-- One chain
-- ---------------------------------------------------------------------------

namespace SafeRwList

/-- `rwfind_nolock`; `none` is `safe_rw_list_error_notfound`. -/
def rwfind (ops : IdOps Id) (list : List (ContainerItem Id α)) (id : Id) : Option α :=
  (list.find? fun item => decide (ops.Same item.id id)).map (·.pri)

/-- The locked part of `rwinsert`: the item goes to the head, unless its id is
there already. -/
def rwinsert (ops : IdOps Id) (list : List (ContainerItem Id α)) (id : Id) (pri : α) :
    List (ContainerItem Id α) :=
  if (rwfind ops list id).isNone then ⟨id, pri⟩ :: list else list

/-- The locked part of `rwerase`: the first item of that id goes. -/
def rwerase (ops : IdOps Id) (list : List (ContainerItem Id α)) (id : Id) :
    List (ContainerItem Id α) :=
  list.eraseP fun item => decide (ops.Same item.id id)

/-- A write through the pointer stored for `id`. -/
def rwwrite (ops : IdOps Id) (list : List (ContainerItem Id α)) (id : Id) (f : α → α) :
    List (ContainerItem Id α) :=
  list.map fun item => if ops.Same item.id id then { item with pri := f item.pri } else item

/-- A well-formed chain: it is the one of hash `i`, and holds no id twice. -/
structure Good (ops : IdOps Id) (len i : Nat) (list : List (ContainerItem Id α)) : Prop where
  placed   : ∀ item ∈ list, ops.hashId item.id len = i
  distinct : list.Pairwise fun a b => ¬ ops.Same a.id b.id

section

variable {ops : IdOps Id} {list : List (ContainerItem Id α)} {len i : Nat} {id x : Id}

theorem rwfind_congr (h : ops.Same id x) : rwfind ops list id = rwfind ops list x := by
  unfold rwfind
  congr 2
  funext item
  exact decide_eq_decide.mpr ⟨fun h' => h'.trans h, fun h' => h'.trans h.symm⟩

theorem rwfind_eq_none_iff : rwfind ops list id = none ↔ ∀ item ∈ list, ¬ ops.Same item.id id := by
  simp [rwfind]

theorem rwfind_cons (item : ContainerItem Id α) :
    rwfind ops (item :: list) x =
      if ops.Same item.id x then some item.pri else rwfind ops list x := by
  unfold rwfind
  rw [List.find?_cons]
  by_cases h : ops.Same item.id x <;> simp [h]

theorem rwfind_write (f : α → α) :
    rwfind ops (rwwrite ops list id f) x =
      if ops.Same id x then (rwfind ops list x).map f else rwfind ops list x := by
  induction list with
  | nil => simp [rwfind, rwwrite]
  | cons item rest ih =>
    rw [show rwwrite ops (item :: rest) id f =
      (if ops.Same item.id id then { item with pri := f item.pri } else item) ::
        rwwrite ops rest id f from rfl, rwfind_cons, rwfind_cons, ih]
    by_cases hItem : ops.Same item.id id <;> by_cases hx : ops.Same id x
    · simp [hItem, hx, hItem.trans hx]
    · have : ¬ ops.Same item.id x := fun h => hx (hItem.symm.trans h)
      simp [hItem, hx, this]
    · have : ¬ ops.Same item.id x := fun h => hItem (h.trans hx.symm)
      simp [hItem, hx, this]
    · simp [hItem, hx]

/-- Writing what is there changes nothing. -/
theorem Good.rwwrite_self (h : Good ops len i list) {a : α} (hFind : rwfind ops list id = some a) :
    rwwrite ops list id (fun _ => a) = list := by
  induction list with
  | nil => rfl
  | cons item rest ih =>
    obtain ⟨hHead, hRest⟩ := List.pairwise_cons.mp h.distinct
    rw [show rwwrite ops (item :: rest) id (fun _ => a) =
      (if ops.Same item.id id then { item with pri := a } else item) ::
        rwwrite ops rest id (fun _ => a) from rfl]
    rw [rwfind_cons] at hFind
    by_cases hItem : ops.Same item.id id
    · rw [if_pos hItem] at hFind ⊢
      obtain rfl := Option.some.inj hFind
      -- the head is the only item of this id
      have hOthers : rwwrite ops rest id (fun _ => item.pri) = rest := by
        unfold rwwrite
        rw [List.map_congr_left (g := fun item' => item') fun item' h' => ?_, List.map_id']
        exact if_neg fun hs => hHead item' h' (hItem.trans hs.symm)
      rw [hOthers]
    · rw [if_neg hItem] at hFind ⊢
      rw [ih ⟨fun item' h' => h.placed item' (List.mem_cons_of_mem _ h'), hRest⟩ hFind]

theorem Good.rwfind_erase (h : Good ops len i list) :
    rwfind ops (rwerase ops list id) x =
      if ops.Same id x then none else rwfind ops list x := by
  induction list with
  | nil => simp [rwfind, rwerase]
  | cons item rest ih =>
    obtain ⟨hHead, hRest⟩ := List.pairwise_cons.mp h.distinct
    have ih := ih ⟨fun item' h' => h.placed item' (List.mem_cons_of_mem _ h'), hRest⟩
    unfold rwerase at ih ⊢
    rw [List.eraseP_cons]
    by_cases hItem : ops.Same item.id id
    · simp only [hItem, decide_true, cond_true]
      rw [rwfind_cons]
      by_cases hx : ops.Same id x
      · -- the head was the only item of this id
        rw [if_pos hx, rwfind_eq_none_iff]
        exact fun item' h' hs => hHead item' h' ((hItem.trans hx).trans hs.symm)
      · rw [if_neg hx, if_neg fun h' => hx (hItem.symm.trans h')]
    · simp only [hItem, decide_false, cond_false]
      rw [rwfind_cons, rwfind_cons, ih]
      by_cases hx : ops.Same id x
      · have : ¬ ops.Same item.id x := fun h' => hItem (h'.trans hx.symm)
        simp [hx, this]
      · simp [hx]

theorem Good.insert (h : Good ops len i list) (pri : α) (hi : ops.hashId id len = i) :
    Good ops len i (rwinsert ops list id pri) := by
  unfold rwinsert
  split
  · rename_i hNone
    rw [Option.isNone_iff_eq_none, rwfind_eq_none_iff] at hNone
    refine ⟨?_, List.pairwise_cons.mpr ⟨fun item hitem hs => hNone item hitem hs.symm, h.distinct⟩⟩
    rintro item (_ | ⟨_, hitem⟩)
    · exact hi
    · exact h.placed item hitem
  · exact h

theorem Good.erase (h : Good ops len i list) (id : Id) : Good ops len i (rwerase ops list id) :=
  ⟨fun item hitem => h.placed item (List.mem_of_mem_eraseP hitem),
    h.distinct.sublist List.eraseP_sublist⟩

theorem Good.write (h : Good ops len i list) (id : Id) (f : α → α) :
    Good ops len i (rwwrite ops list id f) := by
  have hId : ∀ item : ContainerItem Id α,
      (if ops.Same item.id id then { item with pri := f item.pri } else item).id = item.id := by
    intro item
    split <;> rfl
  refine ⟨?_, ?_⟩
  · intro item hitem
    obtain ⟨item', hitem', rfl⟩ := List.mem_map.mp hitem
    rw [hId]
    exact h.placed item' hitem'
  · refine List.pairwise_map.mpr (h.distinct.imp fun hne => ?_)
    rwa [hId, hId]

end

end SafeRwList

-- ---------------------------------------------------------------------------
-- The table
-- ---------------------------------------------------------------------------

open SafeRwList

/-- `hash_table_t` with `compare` and `hash_id` installed. -/
structure HashTable (ops : IdOps Id) (α : Type) where
  cache     : MemoryCache
  hashTable : List (List (ContainerItem Id α))
  len_pos   : 0 < hashTable.length
  good      : ∀ i list, hashTable[i]? = some list → Good ops hashTable.length i list

namespace HashTable

variable {ops : IdOps Id}

/-- `alloc_hash_table`, for a positive length. -/
def alloc (ops : IdOps Id) (α : Type) (tableLen : Nat) (itemNum : ULong) (h : 0 < tableLen) :
    HashTable ops α where
  cache     := .init itemNum
  hashTable := List.replicate tableLen []
  len_pos   := by simpa using h
  good      := by
    intro i list hi
    obtain ⟨-, rfl⟩ := List.getElem?_eq_some_iff.mp hi
    rw [List.getElem_replicate]
    exact ⟨by simp, List.Pairwise.nil⟩

/-- `tab->hash(id, tab->tab_len)`. -/
def index (t : HashTable ops α) (id : Id) : Nat := ops.hashId id t.hashTable.length

/-- `&tab->hash_table[index]`. -/
def chain (t : HashTable ops α) (id : Id) : List (ContainerItem Id α) :=
  t.hashTable.getD (t.index id) []

/-- The table with the chain of `id` rewritten. -/
def onChain (t : HashTable ops α) (id : Id) (cache : MemoryCache)
    (f : List (ContainerItem Id α) → List (ContainerItem Id α))
    (hf : ∀ list, Good ops t.hashTable.length (t.index id) list →
      Good ops t.hashTable.length (t.index id) (f list)) : HashTable ops α where
  cache     := cache
  hashTable := t.hashTable.modify (t.index id) f
  len_pos   := by simpa using t.len_pos
  good      := by
    intro i list hi
    rw [List.getElem?_modify] at hi
    obtain ⟨list', hi', rfl⟩ := Option.map_eq_some_iff.mp hi
    rw [List.length_modify]
    have hGood := t.good i list' hi'
    split
    · rename_i heq
      subst heq
      exact hf list' hGood
    · exact hGood

/-- `hfind`. -/
def find (t : HashTable ops α) (id : Id) : Option α := rwfind ops (t.chain id) id

/-- `hinsert`; `none` is the failed `assert(item)` of `rwinsert`. A rejected
item goes back to the cache. -/
def insert (t : HashTable ops α) (id : Id) (pri : α) : Option (HashTable ops α × TableError) :=
  t.cache.alloc.map fun cache =>
    if (t.find id).isNone then
      (t.onChain id cache (rwinsert ops · id pri) fun _ h => h.insert pri rfl, .ok)
    else ({ t with cache := cache.free }, .exist)

/-- `herase`, with the value it hands back. -/
def erase (t : HashTable ops α) (id : Id) : HashTable ops α × Option α :=
  match t.find id with
  | some pri => (t.onChain id t.cache.free (rwerase ops · id) fun _ h => h.erase id, some pri)
  | none => (t, none)

/-- A write through the pointer that `hfind` hands out for `id`. -/
def write (t : HashTable ops α) (id : Id) (f : α → α) : HashTable ops α :=
  t.onChain id t.cache (rwwrite ops · id f) fun _ h => h.write id f

/-- What `for_each_do` visits, in its order. -/
def items (t : HashTable ops α) : List (ContainerItem Id α) := t.hashTable.flatten

/-! ## The table is a finite map -/

variable {t : HashTable ops α} {id x : Id}

theorem index_lt (t : HashTable ops α) (id : Id) : t.index id < t.hashTable.length :=
  ops.hash_lt id _ t.len_pos

theorem getElem?_index (t : HashTable ops α) (id : Id) :
    t.hashTable[t.index id]? = some (t.chain id) := by
  rw [chain, List.getD_eq_getElem?_getD, List.getElem?_eq_getElem (t.index_lt id)]
  rfl

theorem good_chain (t : HashTable ops α) (id : Id) :
    Good ops t.hashTable.length (t.index id) (t.chain id) :=
  t.good _ _ (t.getElem?_index id)

theorem index_congr (h : ops.Same id x) : t.index id = t.index x := h.hash_eq _

theorem find_congr (h : ops.Same id x) : t.find id = t.find x := by
  unfold find chain
  rw [index_congr h, rwfind_congr h]

theorem chain_onChain {cache : MemoryCache}
    {f : List (ContainerItem Id α) → List (ContainerItem Id α)} {hf} :
    (t.onChain id cache f hf).chain x =
      if t.index id = t.index x then f (t.chain x) else t.chain x := by
  have hIndex : (t.onChain id cache f hf).index x = t.index x := by
    simp [index, onChain]
  unfold chain
  rw [hIndex, List.getD_eq_getElem?_getD, List.getD_eq_getElem?_getD,
    show (t.onChain id cache f hf).hashTable = t.hashTable.modify (t.index id) f from rfl,
    List.getElem?_modify, t.getElem?_index x]
  by_cases h : t.index id = t.index x <;> simp [h]

@[simp] theorem find_alloc {tableLen : Nat} {itemNum : ULong} {h : 0 < tableLen} :
    (alloc ops α tableLen itemNum h).find id = none := by
  have : (alloc ops α tableLen itemNum h).chain id = [] := by
    simp [chain, alloc, List.getD_eq_getElem?_getD, List.getElem?_replicate]
    split <;> rfl
  rw [find, this]
  rfl

/-- An insertion of a new id adds its binding and no other. -/
theorem find_insert {pri : α} {t' : HashTable ops α} (h : t.insert id pri = some (t', .ok)) :
    t.find id = none ∧ t'.find x = if ops.Same id x then some pri else t.find x := by
  obtain ⟨cache, -, h⟩ := Option.map_eq_some_iff.mp h
  split at h
  · rename_i hNone
    obtain ⟨rfl, -⟩ := Prod.mk.inj h
    rw [Option.isNone_iff_eq_none] at hNone
    refine ⟨hNone, ?_⟩
    unfold find at hNone ⊢
    rw [chain_onChain]
    by_cases hx : ops.Same id x
    · have hChain : t.chain x = t.chain id := by
        unfold chain
        rw [index_congr hx]
      rw [if_pos (index_congr hx), if_pos hx, hChain]
      simp [rwinsert, hNone, rwfind_cons, hx]
    · rw [if_neg hx]
      split
      · rename_i hIndex
        have hChain : t.chain x = t.chain id := by
          unfold chain
          rw [hIndex]
        rw [hChain]
        simp [rwinsert, hNone, rwfind_cons, hx]
      · rfl
  · simp at h

/-- A rejected insertion changes no binding. -/
theorem find_insert_exist {pri : α} {t' : HashTable ops α}
    (h : t.insert id pri = some (t', .exist)) : t'.find x = t.find x := by
  obtain ⟨cache, -, h⟩ := Option.map_eq_some_iff.mp h
  split at h
  · simp at h
  · obtain ⟨rfl, -⟩ := Prod.mk.inj h
    rfl

theorem isSome_find_of_exist {pri : α} {t' : HashTable ops α}
    (h : t.insert id pri = some (t', .exist)) : (t.find id).isSome := by
  obtain ⟨cache, -, h⟩ := Option.map_eq_some_iff.mp h
  split at h
  · simp at h
  · rename_i hNot
    simpa [Option.isSome_iff_ne_none] using hNot

/-- `insert` ends in one of two ways. -/
theorem insert_cases {pri : α} {r : HashTable ops α × TableError}
    (h : t.insert id pri = some r) : r.2 = .ok ∨ r.2 = .exist := by
  obtain ⟨cache, -, rfl⟩ := Option.map_eq_some_iff.mp h
  split
  · exact Or.inl rfl
  · exact Or.inr rfl

/-- A new id is not rejected. -/
theorem insert_new {pri : α} {t' : HashTable ops α} {err : TableError} (hNone : t.find id = none)
    (h : t.insert id pri = some (t', err)) : err = .ok := by
  obtain ⟨cache, -, h⟩ := Option.map_eq_some_iff.mp h
  rw [if_pos (by rw [hNone]; rfl)] at h
  exact (Prod.mk.inj h).2.symm

/-- An insertion takes an item, and keeps it if it goes through. -/
theorem cache_insert {pri : α} {r : HashTable ops α × TableError} (h : t.insert id pri = some r) :
    ∃ cache, t.cache.alloc = some cache ∧ r.1.cache = if r.2 = .ok then cache else cache.free := by
  obtain ⟨cache, hCache, rfl⟩ := Option.map_eq_some_iff.mp h
  refine ⟨cache, hCache, ?_⟩
  split <;> rfl

theorem isSome_insert (id : Id) (pri : α) (h : t.cache.alloc.isSome) :
    (t.insert id pri).isSome := by
  unfold insert
  rwa [Option.isSome_map]

theorem cache_erase :
    (t.erase id).1.cache = if (t.find id).isSome then t.cache.free else t.cache := by
  unfold erase
  cases h : t.find id <;> rfl

theorem erase_snd : (t.erase id).2 = t.find id := by
  unfold erase
  split <;> simp_all

/-- An erasure removes the binding of the id and no other. -/
theorem find_erase : (t.erase id).1.find x = if ops.Same id x then none else t.find x := by
  unfold erase
  split
  · unfold find
    rw [chain_onChain]
    split
    · rw [(t.good_chain x).rwfind_erase]
    · rename_i hIndex
      rw [if_neg fun hx => hIndex (index_congr hx)]
  · rename_i hNone
    by_cases hx : ops.Same id x
    · rw [if_pos hx, ← find_congr hx, hNone]
    · rw [if_neg hx]

/-- A write reaches the binding of the id and no other. -/
theorem find_write {f : α → α} :
    (t.write id f).find x = if ops.Same id x then (t.find x).map f else t.find x := by
  unfold write find
  rw [chain_onChain]
  split
  · exact rwfind_write f
  · rename_i hIndex
    rw [if_neg fun hx => hIndex (index_congr hx)]

theorem eq_of_hashTable {t' : HashTable ops α} (hCache : t.cache = t'.cache)
    (hTable : t.hashTable = t'.hashTable) : t = t' := by
  cases t
  cases t'
  simp only at hCache hTable
  subst hCache hTable
  rfl

/-- Writing what is there changes nothing. -/
theorem write_self {a : α} (h : t.find id = some a) : t.write id (fun _ => a) = t := by
  refine eq_of_hashTable rfl (List.ext_getElem? fun i => ?_)
  rw [show (t.write id fun _ => a).hashTable =
    t.hashTable.modify (t.index id) (rwwrite ops · id fun _ => a) from rfl, List.getElem?_modify]
  split
  · rename_i hIndex
    rw [← hIndex, t.getElem?_index id]
    exact congrArg some ((t.good_chain id).rwwrite_self h)
  · rw [id_map']

-- ---------------------------------------------------------------------------
-- All items
-- ---------------------------------------------------------------------------

@[simp] theorem items_alloc {tableLen : Nat} {itemNum : ULong} {h : 0 < tableLen} :
    (alloc ops α tableLen itemNum h).items = [] := by
  simp [items, alloc]

/-- One more item at the head of one chain is one more item. -/
theorem flatten_modify_cons {β : Type} (b : β) {l : List (List β)} {i : Nat} (hi : i < l.length) :
    (l.modify i (b :: ·)).flatten.Perm (b :: l.flatten) := by
  induction l generalizing i with
  | nil => cases hi
  | cons list l ih =>
    cases i with
    | zero => simp
    | succ i =>
      simp only [List.modify_succ_cons, List.flatten_cons]
      have hRest := (ih (Nat.lt_of_succ_lt_succ hi)).append_left list
      exact hRest.trans List.perm_middle

/-- An insertion adds its item to those there are. -/
theorem items_insert {pri : α} {t' : HashTable ops α} (h : t.insert id pri = some (t', .ok)) :
    t'.items.Perm (⟨id, pri⟩ :: t.items) := by
  obtain ⟨cache, -, h⟩ := Option.map_eq_some_iff.mp h
  split at h
  · rename_i hNone
    obtain ⟨rfl, -⟩ := Prod.mk.inj h
    have hChain : (t.hashTable.modify (t.index id) (rwinsert ops · id pri)) =
        t.hashTable.modify (t.index id) (⟨id, pri⟩ :: ·) := by
      refine List.ext_getElem? fun i => ?_
      rw [List.getElem?_modify, List.getElem?_modify]
      split
      · rename_i hIndex
        rw [← hIndex, t.getElem?_index id]
        exact congrArg some (if_pos hNone)
      · rfl
    unfold items
    rw [show (t.onChain id cache (rwinsert ops · id pri) _).hashTable =
      t.hashTable.modify (t.index id) (rwinsert ops · id pri) from rfl, hChain]
    exact flatten_modify_cons _ (t.index_lt id)
  · simp at h

end HashTable

end DatastorQos
