import DatastorQos.Table.HashTable
import DatastorQos.Lib.Refine
import Mathlib.Data.Finmap

/-!
# datastor_qos — the node table is a finite map

A table stands for a finite map on resources, which are ids up to `compare`.

* `HashTable.toMap` — the map a table stands for; that it has no key twice is
  what the chains' well-formedness comes to over the whole table;
* `table_refines_map` — one operation on the table answers as on the map;
* `table_is_finite_map` — so do all operations in turn, from a new table on,
  `for_each_do` included.
-/

namespace DatastorQos

open Refine SafeRwList

variable {Id α : Type}

-- ---------------------------------------------------------------------------
-- Classes of ids
-- ---------------------------------------------------------------------------

def IdOps.setoid (ops : IdOps Id) : Setoid Id := ⟨ops.Same, ops.same_equiv⟩

/-- What ids name: ids up to `compare`. -/
abbrev IdClass (ops : IdOps Id) : Type := Quotient ops.setoid

/-- The class of an id. -/
def IdOps.classOf (ops : IdOps Id) (id : Id) : IdClass ops := Quotient.mk ops.setoid id

instance (ops : IdOps Id) : DecidableEq (IdClass ops) :=
  @Quotient.decidableEq Id ops.setoid fun a b => inferInstanceAs (Decidable (ops.Same a b))

variable {ops : IdOps Id} {id x : Id}

theorem IdOps.classOf_eq_iff : ops.classOf id = ops.classOf x ↔ ops.Same id x := Quotient.eq

namespace HashTable

variable {t : HashTable ops α}

-- ---------------------------------------------------------------------------
-- The items of a table
-- ---------------------------------------------------------------------------

/-- An item is in the chain of its id. -/
theorem mem_items_iff {item : ContainerItem Id α} : item ∈ t.items ↔ item ∈ t.chain item.id := by
  unfold items
  rw [List.mem_flatten]
  constructor
  · rintro ⟨list, hList, hItem⟩
    obtain ⟨i, hi⟩ := List.mem_iff_getElem?.mp hList
    have hIndex : t.index item.id = i := (t.good i list hi).placed item hItem
    rw [← hIndex, t.getElem?_index] at hi
    exact Option.some.inj hi ▸ hItem
  · exact fun hItem => ⟨t.chain item.id, List.mem_of_getElem? (t.getElem?_index item.id), hItem⟩

/-- No two items of a table have the same id: in one chain because the chain is
well-formed, in two chains because their ids hash to different ones. -/
theorem items_distinct (t : HashTable ops α) :
    t.items.Pairwise fun a b => ¬ ops.Same a.id b.id := by
  refine List.pairwise_flatten.mpr ⟨fun list hList => ?_, ?_⟩
  · obtain ⟨i, hi⟩ := List.mem_iff_getElem?.mp hList
    exact (t.good i list hi).distinct
  · refine List.pairwise_iff_getElem.mpr fun i j hi hj hLess a ha b hb hSame => ?_
    have hPlacedA := (t.good i _ (List.getElem?_eq_getElem hi)).placed a ha
    have hPlacedB := (t.good j _ (List.getElem?_eq_getElem hj)).placed b hb
    rw [hSame.hash_eq] at hPlacedA
    exact Nat.ne_of_lt hLess (hPlacedA.symm.trans hPlacedB)

/-- `find` looks for an item. -/
theorem find_eq_some_iff {pri : α} :
    t.find id = some pri ↔ ∃ item ∈ t.items, ops.Same item.id id ∧ item.pri = pri := by
  have hChain : ∀ item : ContainerItem Id α, ops.Same item.id id → t.chain item.id = t.chain id := by
    intro item hSame
    unfold chain
    rw [index_congr hSame]
  have hFound : ∀ pri, t.find id = some pri →
      ∃ item ∈ t.items, ops.Same item.id id ∧ item.pri = pri := by
    intro pri h
    obtain ⟨item, hItem, rfl⟩ := Option.map_eq_some_iff.mp h
    have hSame : ops.Same item.id id := by simpa using List.find?_some hItem
    refine ⟨item, mem_items_iff.mpr ?_, hSame, rfl⟩
    rw [hChain item hSame]
    exact List.mem_of_find?_eq_some hItem
  refine ⟨hFound pri, ?_⟩
  rintro ⟨item, hItem, hSame, rfl⟩
  cases h : t.find id with
  | none =>
    refine absurd hSame (rwfind_eq_none_iff.mp h item ?_)
    rw [← hChain item hSame]
    exact mem_items_iff.mp hItem
  | some pri =>
    -- what is found is another item of this id, of which there is one
    obtain ⟨item', hItem', hSame', rfl⟩ := hFound pri h
    have : Std.Symm fun a b : ContainerItem Id α => ¬ ops.Same a.id b.id :=
      ⟨fun a b hNot h => hNot h.symm⟩
    by_contra hNe
    refine t.items_distinct.forall hItem hItem' ?_ (hSame.trans hSame'.symm)
    rintro rfl
    exact hNe rfl

-- ---------------------------------------------------------------------------
-- The map a table stands for
-- ---------------------------------------------------------------------------

/-- What an item binds. -/
def binding (ops : IdOps Id) (item : ContainerItem Id α) : Σ _ : IdClass ops, α :=
  ⟨ops.classOf item.id, item.pri⟩

theorem nodupKeys_bindings (t : HashTable ops α) : (t.items.map (binding ops)).NodupKeys := by
  rw [List.nodupKeys_iff_pairwise, List.pairwise_map]
  exact t.items_distinct.imp fun hNot h => hNot (IdOps.classOf_eq_iff.mp h)

/-- The finite map a table stands for. -/
def toMap (t : HashTable ops α) : Finmap fun _ : IdClass ops => α :=
  ⟨↑(t.items.map (binding ops)), Multiset.coe_nodupKeys.mpr t.nodupKeys_bindings⟩

theorem lookup_toMap (t : HashTable ops α) (id : Id) :
    t.toMap.lookup (ops.classOf id) = t.find id := by
  refine Option.ext fun pri => ?_
  rw [show t.toMap.lookup (ops.classOf id) =
    (t.items.map (binding ops)).dlookup (ops.classOf id) from rfl,
    ← Option.mem_def, List.mem_dlookup_iff t.nodupKeys_bindings, find_eq_some_iff, List.mem_map]
  refine exists_congr fun item => and_congr_right fun _ => ?_
  simp only [binding, Sigma.mk.injEq, IdOps.classOf_eq_iff, heq_eq_eq]

/-- Two tables with the same lookups stand for the same map. -/
theorem toMap_eq {m : Finmap fun _ : IdClass ops => α}
    (h : ∀ x, t.find x = m.lookup (ops.classOf x)) : t.toMap = m := by
  refine Finmap.ext_lookup fun c => ?_
  induction c using Quotient.ind with
  | _ x => exact (t.lookup_toMap x).trans (h x)

theorem toMap_alloc {tableLen : Nat} {itemNum : ULong} {h : 0 < tableLen} :
    (alloc ops α tableLen itemNum h).toMap = ∅ :=
  toMap_eq fun x => by rw [find_alloc, Finmap.lookup_empty]

theorem toMap_insert {pri : α} {t' : HashTable ops α} (h : t.insert id pri = some (t', .ok)) :
    t'.toMap = t.toMap.insert (ops.classOf id) pri := by
  refine toMap_eq fun x => ?_
  rw [(find_insert h).2]
  split
  · rename_i hSame
    rw [← IdOps.classOf_eq_iff.mpr hSame, Finmap.lookup_insert]
  · rename_i hNot
    rw [Finmap.lookup_insert_of_ne _ fun hEq => hNot (IdOps.classOf_eq_iff.mp hEq.symm),
      lookup_toMap]

theorem toMap_insert_exist {pri : α} {t' : HashTable ops α}
    (h : t.insert id pri = some (t', .exist)) : t'.toMap = t.toMap :=
  toMap_eq fun x => by rw [find_insert_exist h, lookup_toMap]

theorem toMap_erase (t : HashTable ops α) (id : Id) :
    (t.erase id).1.toMap = t.toMap.erase (ops.classOf id) := by
  refine toMap_eq fun x => ?_
  rw [find_erase]
  split
  · rename_i hSame
    rw [← IdOps.classOf_eq_iff.mpr hSame, Finmap.lookup_erase]
  · rename_i hNot
    rw [Finmap.lookup_erase_ne fun hEq => hNot (IdOps.classOf_eq_iff.mp hEq.symm), lookup_toMap]

theorem mem_toMap_iff : ops.classOf id ∈ t.toMap ↔ (t.find id).isSome := by
  rw [← lookup_toMap, Finmap.lookup_isSome]

/-- `for_each_do`: the function is applied to one item after the other. -/
def forEachDo {σ : Type} (t : HashTable ops α) (ctx : σ) (f : σ → Id → α → σ) : σ :=
  t.items.foldl (fun ctx item => f ctx item.id item.pri) ctx

/-- What `for_each_do` applies its function to, noted by the function. -/
def visited (t : HashTable ops α) : Multiset (Σ _ : IdClass ops, α) :=
  t.forEachDo 0 fun seen id pri => ⟨ops.classOf id, pri⟩ ::ₘ seen

/-- `for_each_do` visits what the map has, each binding once. -/
theorem visited_eq (t : HashTable ops α) : t.visited = t.toMap.entries := by
  have hFold : ∀ (l : List (ContainerItem Id α)) (seen : Multiset (Σ _ : IdClass ops, α)),
      l.foldl (fun seen item => binding ops item ::ₘ seen) seen = ↑(l.map (binding ops)) + seen := by
    intro l
    induction l with
    | nil => simp
    | cons item l ih =>
      intro seen
      rw [List.foldl_cons, ih, List.map_cons, ← Multiset.cons_coe, Multiset.add_cons,
        Multiset.cons_add]
  exact (hFold t.items 0).trans (add_zero _)

-- ---------------------------------------------------------------------------
-- How many ids there are
-- ---------------------------------------------------------------------------

/-- The number of ids in the table. -/
def size (t : HashTable ops α) : Nat := t.toMap.keys.card

theorem classOf_mem_keys : ops.classOf id ∈ t.toMap.keys ↔ (t.find id).isSome :=
  Finmap.mem_keys.trans mem_toMap_iff

theorem size_alloc {tableLen : Nat} {itemNum : ULong} {h : 0 < tableLen} :
    (alloc ops α tableLen itemNum h).size = 0 := by
  rw [size, toMap_alloc, Finmap.keys_empty, Finset.card_empty]

/-- Tables with the same ids. -/
theorem size_congr {t' : HashTable ops α} (h : ∀ x, (t'.find x).isSome = (t.find x).isSome) :
    t'.size = t.size := by
  refine congrArg Finset.card (Finset.ext fun c => ?_)
  induction c using Quotient.ind with
  | _ x =>
    rw [show Quotient.mk ops.setoid x = ops.classOf x from rfl, classOf_mem_keys, classOf_mem_keys,
      h]

theorem size_write (t : HashTable ops α) (id : Id) (f : α → α) : (t.write id f).size = t.size := by
  refine size_congr fun x => ?_
  rw [find_write]
  split
  · exact Option.isSome_map
  · rfl

theorem size_insert {pri : α} {t' : HashTable ops α} (h : t.insert id pri = some (t', .ok)) :
    t'.size = t.size + 1 := by
  have hNew : ops.classOf id ∉ t.toMap.keys := by
    rw [classOf_mem_keys, (find_insert (x := id) h).1]
    exact Bool.false_ne_true
  have hKeys : t'.toMap.keys = t.toMap.keys.cons (ops.classOf id) hNew := by
    refine Finset.ext fun c => ?_
    rw [toMap_insert h, Finmap.mem_keys, Finmap.mem_insert, Finset.mem_cons, Finmap.mem_keys]
  rw [size, hKeys, Finset.card_cons, size]

theorem size_erase (h : (t.find id).isSome) : (t.erase id).1.size + 1 = t.size := by
  rw [size, toMap_erase, Finmap.keys_erase]
  exact Finset.card_erase_add_one (classOf_mem_keys.mpr h)

end HashTable

-- ---------------------------------------------------------------------------
-- Operations
-- ---------------------------------------------------------------------------

inductive TableOp (Id α : Type) where
  | insert (id : Id) (pri : α)
  | erase (id : Id)
  | find (id : Id)
  | forEachDo

/-- What an operation answers; `visited` is what `for_each_do` applied its
function to. -/
inductive TableAnswer (ops : IdOps Id) (α : Type) where
  | inserted (err : TableError)
  | erased (pri : Option α)
  | found (pri : Option α)
  | visited (bindings : Multiset (Σ _ : IdClass ops, α))

/-- The table. -/
def tableMachine (ops : IdOps Id) (α : Type) :
    Machine (HashTable ops α) (TableOp Id α) (TableAnswer ops α) where
  step t
    | .insert id pri => (t.insert id pri).map fun res => (res.1, .inserted res.2)
    | .erase id => some ((t.erase id).1, .erased (t.erase id).2)
    | .find id => some (t, .found (t.find id))
    | .forEachDo => some (t, .visited t.visited)

/-- A finite map that rejects what it has. -/
def mapMachine (ops : IdOps Id) (α : Type) :
    Machine (Finmap fun _ : IdClass ops => α) (TableOp Id α) (TableAnswer ops α) where
  step m
    | .insert id pri =>
      if ops.classOf id ∈ m then some (m, .inserted .exist)
      else some (m.insert (ops.classOf id) pri, .inserted .ok)
    | .erase id => some (m.erase (ops.classOf id), .erased (m.lookup (ops.classOf id)))
    | .find id => some (m, .found (m.lookup (ops.classOf id)))
    | .forEachDo => some (m, .visited m.entries)

/-- The cache has a free item for an insertion. -/
def HasItem (t : HashTable ops α) : TableOp Id α → Prop
  | .insert _ _ => t.cache.alloc.isSome
  | _ => True

/-- **One operation** on the table answers as on the map it stands for. -/
theorem table_refines_map :
    Refines (tableMachine ops α) (mapMachine ops α) (fun t m => t.toMap = m) HasItem := by
  rintro t _ op rfl hItem
  cases op with
  | insert id pri =>
    obtain ⟨cache, hCache⟩ := Option.isSome_iff_exists.mp hItem
    obtain ⟨⟨t', err⟩, hInsert⟩ : ∃ res, t.insert id pri = some res :=
      ⟨_, by rw [HashTable.insert, hCache, Option.map_some]⟩
    have hStep : (tableMachine ops α).step t (.insert id pri) = some (t', .inserted err) := by
      simp only [tableMachine, hInsert, Option.map_some]
    rcases HashTable.insert_cases hInsert with rfl | rfl
    · have hNew : ops.classOf id ∉ t.toMap := by
        rw [HashTable.mem_toMap_iff, (HashTable.find_insert (x := id) hInsert).1]
        exact Bool.false_ne_true
      exact ⟨_, _, _, hStep, if_neg hNew, HashTable.toMap_insert hInsert⟩
    · have hOld : ops.classOf id ∈ t.toMap :=
        HashTable.mem_toMap_iff.mpr (HashTable.isSome_find_of_exist hInsert)
      exact ⟨_, _, _, hStep, if_pos hOld, HashTable.toMap_insert_exist hInsert⟩
  | erase id =>
    refine ⟨_, _, _, rfl, ?_, t.toMap_erase id⟩
    simp only [mapMachine, HashTable.erase_snd, HashTable.lookup_toMap]
  | find id =>
    refine ⟨_, _, _, rfl, ?_, rfl⟩
    simp only [mapMachine, HashTable.lookup_toMap]
  | forEachDo =>
    refine ⟨_, _, _, rfl, ?_, rfl⟩
    simp only [mapMachine, t.visited_eq]

/-- **The node table is a finite map.** Any operations on a new table answer as
on the empty map, as long as an insertion finds a free item. -/
theorem table_is_finite_map {tableLen : Nat} {itemNum : ULong} (hLen : 0 < tableLen)
    {calls : List (TableOp Id α)}
    (hItems : (tableMachine ops α).Within HasItem (.alloc ops α tableLen itemNum hLen) calls) :
    ∃ t' m' answers,
      (tableMachine ops α).run (.alloc ops α tableLen itemNum hLen) calls = some (t', answers) ∧
      (mapMachine ops α).run ∅ calls = some (m', answers) ∧ t'.toMap = m' :=
  table_refines_map.run HashTable.toMap_alloc hItems

section TwoCalls

/-- An id is inserted twice and looked up. -/
theorem table_is_finite_map_twice : ∃ t' m' answers,
    (tableMachine IdOps.nat ℕ).run (.alloc IdOps.nat ℕ 2 2 Nat.two_pos)
      [.insert 1 10, .insert 1 20, .find 1] = some (t', answers) ∧
    (mapMachine IdOps.nat ℕ).run ∅ [.insert 1 10, .insert 1 20, .find 1] = some (m', answers) ∧
    t'.toMap = m' := by
  refine table_is_finite_map Nat.two_pos ?_
  exact .cons rfl (show (MemoryCache.alloc _).isSome by decide)
    (.cons rfl (show (MemoryCache.alloc _).isSome by decide) (.cons rfl trivial trivial))

end TwoCalls

end DatastorQos
