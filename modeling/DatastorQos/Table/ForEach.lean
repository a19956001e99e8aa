import DatastorQos.Table.ConcurrentTable

/-!
# hash_table — a walk through a table that changes

`for_each_do` locks one chain, applies its function to the items of the chain,
and goes on to the next one. Between two chains other calls come and go, so what
it visits need not have been in the table at any one moment.

`walk_visits` says what holds all the same: each item visited was in the table
when its chain was, none comes twice, and what was in the table all the time is
visited.
-/

namespace DatastorQos

open Runs SafeRwList

variable {Id α : Type} {ops : IdOps Id}

-- ---------------------------------------------------------------------------
-- Sections keep the chains where they are
-- ---------------------------------------------------------------------------

theorem TableSection.length_eq {t t' : HashTable ops α} {l l' : TableCall ops α}
    (h : TableSection t l t' l') : t'.hashTable.length = t.hashTable.length := by
  have hLink : ∀ id pri, (t.link id pri).1.hashTable.length = t.hashTable.length := by
    intro id pri
    unfold HashTable.link
    split
    · exact List.length_modify _ _ _
    · rfl
  have hUnlink : ∀ id, (t.unlink id).1.hashTable.length = t.hashTable.length := by
    intro id
    unfold HashTable.unlink
    split
    · exact List.length_modify _ _ _
    · rfl
  cases h with
  | link id pri _ => exact hLink id pri
  | unlink id _ => exact hUnlink id
  | missing id _ => exact hUnlink id
  | _ => rfl

-- ---------------------------------------------------------------------------
-- Walks
-- ---------------------------------------------------------------------------

/-- `for_each_do` on its way: the chain it comes to next, and the items it
applied its function to. -/
structure Walk (ops : IdOps Id) (α : Type) where
  table   : HashTable ops α
  next    : Nat
  visited : List (ContainerItem Id α)

inductive WalkAct where
  | visit
  | other

/-- One chain is visited, or another call takes a step. -/
inductive WalkStep : Walk ops α → WalkAct → Walk ops α → Prop where
  | visit {t : HashTable ops α} {i : Nat} {visited list : List (ContainerItem Id α)} :
      t.hashTable[i]? = some list → WalkStep ⟨t, i, visited⟩ .visit ⟨t, i + 1, visited ++ list⟩
  | other {t t' : HashTable ops α} {l l' : TableCall ops α} {i : Nat}
      {visited : List (ContainerItem Id α)} :
      l.next t = some (t', l') → WalkStep ⟨t, i, visited⟩ .other ⟨t', i, visited⟩

/-- A walk starts with the first chain of any table. -/
def walkSystem (ops : IdOps Id) (α : Type) : System (Walk ops α) WalkAct where
  init s := s.next = 0 ∧ s.visited = []
  step := WalkStep

/-- The step visits the chain that the item belongs to, with the item in it. -/
structure Visits (item : ContainerItem Id α) (x : Transition (Walk ops α) WalkAct) : Prop where
  act   : x.act = .visit
  chain : x.pre.next = x.pre.table.index item.id
  found : x.pre.table.find item.id = some item.pri

/-- What was visited of the chains before `next`. -/
structure Walk.Visited (s : Walk ops α) (tr : List (Transition (Walk ops α) WalkAct)) : Prop where
  placed   : ∀ item ∈ s.visited, s.table.index item.id < s.next
  distinct : s.visited.Pairwise fun a b => ¬ ops.Same a.id b.id
  was      : ∀ item ∈ s.visited, ∃ x ∈ tr, Visits item x
  all      : ∀ id pri, (∀ x ∈ tr, x.pre.table.find id = some pri) → s.table.index id < s.next →
    rwfind ops s.visited id = some pri

theorem SafeRwList.rwfind_append {l l' : List (ContainerItem Id α)} {id : Id} :
    rwfind ops (l ++ l') id = (rwfind ops l id).or (rwfind ops l' id) := by
  unfold rwfind
  rw [List.find?_append, Option.map_or]

/-- An item of a chain is what is found under its id. -/
theorem HashTable.find_of_mem_chain {t : HashTable ops α} {i : Nat}
    {list : List (ContainerItem Id α)} (hList : t.hashTable[i]? = some list)
    {item : ContainerItem Id α} (hItem : item ∈ list) :
    t.find item.id = some item.pri ∧ t.index item.id = i :=
  ⟨find_eq_some_iff.mpr ⟨item, List.mem_flatten.mpr ⟨list, List.mem_of_getElem? hList, hItem⟩,
    ops.same_refl _, rfl⟩, (t.good i list hList).placed item hItem⟩

theorem Walk.Visited.step {s s' : Walk ops α} {a : WalkAct}
    {tr : List (Transition (Walk ops α) WalkAct)} (hv : s.Visited tr) (hStep : WalkStep s a s') :
    s'.Visited (tr ++ [⟨s, a, s'⟩]) := by
  have hWas : ∀ item ∈ s.visited, ∃ x ∈ tr ++ [⟨s, a, s'⟩], Visits item x := by
    intro item hItem
    obtain ⟨x, hx, hVisits⟩ := hv.was item hItem
    exact ⟨x, List.mem_append_left _ hx, hVisits⟩
  cases hStep with
  | @other t t' l l' i visited hNext =>
    have hLength := (TableCall.next_cases hNext).length_eq
    have hIndex : ∀ id, t'.index id = t.index id := by
      intro id
      unfold HashTable.index
      rw [hLength]
    exact {
      placed   := fun item hItem => hIndex item.id ▸ hv.placed item hItem
      distinct := hv.distinct
      was      := hWas
      all      := fun id pri hAll hBefore =>
        hv.all id pri (fun x hx => hAll x (List.mem_append_left _ hx)) (hIndex id ▸ hBefore) }
  | @visit t i visited list hList =>
    have hChain : ∀ item ∈ list, t.find item.id = some item.pri ∧ t.index item.id = i :=
      fun item hItem => HashTable.find_of_mem_chain hList hItem
    exact {
      placed   := by
        intro item hItem
        rcases List.mem_append.mp hItem with hItem | hItem
        · exact Nat.lt_succ_of_lt (hv.placed item hItem)
        · exact Nat.lt_succ_of_le (hChain item hItem).2.le
      distinct := by
        refine List.pairwise_append.mpr ⟨hv.distinct, (t.good i list hList).distinct, ?_⟩
        -- they hash to different chains
        intro a ha b hb hSame
        have hBefore : t.index a.id < i := hv.placed a ha
        rw [HashTable.index_congr hSame, (hChain b hb).2] at hBefore
        exact Nat.lt_irrefl _ hBefore
      was      := by
        intro item hItem
        rcases List.mem_append.mp hItem with hItem | hItem
        · exact hWas item hItem
        · obtain ⟨hFind, hIndex⟩ := hChain item hItem
          exact ⟨_, List.mem_append_right _ (List.mem_singleton_self _), rfl, hIndex.symm, hFind⟩
      all      := by
        intro id pri hAll hBefore
        have hEarlier := hv.all id pri fun x hx => hAll x (List.mem_append_left _ hx)
        have hNow : t.find id = some pri :=
          hAll _ (List.mem_append_right _ (List.mem_singleton_self _))
        rw [rwfind_append]
        rcases Nat.lt_succ_iff_lt_or_eq.mp hBefore with hLess | hHere
        · rw [hEarlier hLess]
          rfl
        · have hNone : rwfind ops visited id = none := by
            refine rwfind_eq_none_iff.mpr fun item hItem hSame => ?_
            have hPlaced : t.index item.id < i := hv.placed item hItem
            rw [HashTable.index_congr hSame, show t.index id = i from hHere] at hPlaced
            exact Nat.lt_irrefl _ hPlaced
          have hList' : list = t.chain id := by
            have hGet := t.getElem?_index id
            rw [show t.index id = i from hHere, hList] at hGet
            exact Option.some.inj hGet
          rw [hNone, Option.none_or, hList']
          exact hNow }

theorem Run.visited {s s' : Walk ops α} {tr : List (Transition (Walk ops α) WalkAct)}
    (hInit : (walkSystem ops α).init s) (hRun : Run (walkSystem ops α) s tr s') :
    s'.Visited tr := by
  induction hRun with
  | nil =>
    obtain ⟨hNext, hVisited⟩ := hInit
    have hNo : ∀ {p : Prop} item, item ∈ s.visited → p := fun item h => by
      rw [hVisited] at h
      cases h
    exact {
      placed   := fun item h => hNo item h
      distinct := hVisited ▸ List.Pairwise.nil
      was      := fun item h => hNo item h
      all      := fun id _ _ h => absurd h (by rw [hNext]; exact Nat.not_lt_zero _) }
  | snoc _ hStep ih => exact ih.step hStep

/-- **A walk beside other calls**, once it came through: no id was visited
twice, what was visited was in the table when its chain was, and an id that was in
the table all the time, with one value, was visited with it. -/
theorem walk_visits {s s' : Walk ops α} {tr : List (Transition (Walk ops α) WalkAct)}
    (hInit : (walkSystem ops α).init s) (hRun : Run (walkSystem ops α) s tr s')
    (hDone : s'.next = s'.table.hashTable.length) :
    (s'.visited.Pairwise fun a b => ¬ ops.Same a.id b.id) ∧
    (∀ item ∈ s'.visited, ∃ x ∈ tr, Visits item x) ∧
    ∀ id pri, (∀ x ∈ tr, x.pre.table.find id = some pri) →
      ∃ item ∈ s'.visited, ops.Same item.id id ∧ item.pri = pri := by
  have hv := Run.visited hInit hRun
  refine ⟨hv.distinct, hv.was, fun id pri hAll => ?_⟩
  have hFound := hv.all id pri hAll (hDone ▸ s'.table.index_lt id)
  obtain ⟨item, hItem, hPri⟩ := Option.map_eq_some_iff.mp hFound
  exact ⟨item, List.mem_of_find?_eq_some hItem, by simpa using List.find?_some hItem, hPri⟩

section MovingTable

/-- A table of two chains with the ids 2, 1 and 3. -/
def threeIds : HashTable IdOps.nat ℕ where
  cache     := ⟨4, 3, 0⟩
  hashTable := [[⟨2, 20⟩], [⟨3, 30⟩, ⟨1, 10⟩]]
  len_pos   := Nat.two_pos
  good      := by
    rintro (_ | _ | i) list hi
    · obtain rfl := Option.some.inj hi
      exact ⟨by decide, by decide⟩
    · obtain rfl := Option.some.inj hi
      exact ⟨by decide, by decide⟩
    · cases hi

/-- Between the two chains 3 leaves and 4 comes into the first one: neither is
visited, the others are. -/
theorem walk_visits_between : ∃ s' tr, Run (walkSystem IdOps.nat ℕ) ⟨threeIds, 0, []⟩ tr s' ∧
    s'.visited = [⟨2, 20⟩, ⟨1, 10⟩] ∧
      ∃ item ∈ s'.visited, IdOps.nat.Same item.id 1 ∧ item.pri = 10 := by
  have hRun : Run (walkSystem IdOps.nat ℕ) ⟨threeIds, 0, []⟩ _ _ := (((Run.nil
    |>.snoc (WalkStep.visit rfl))
    |>.snoc (WalkStep.other (l := .called (.erase 3)) rfl))
    |>.snoc (WalkStep.other (l := .linking 4 40) rfl))
    |>.snoc (WalkStep.visit rfl)
  refine ⟨_, _, hRun, rfl, ?_⟩
  refine (walk_visits ⟨rfl, rfl⟩ hRun rfl).2.2 1 10 ?_
  exact forall_snoc (forall_snoc (forall_snoc (forall_snoc (by simp) rfl) rfl) rfl) rfl

end MovingTable

end DatastorQos
