import Mathlib.Data.List.Chain
import Mathlib.Data.List.Nodup
import Mathlib.Logic.Function.Basic

/-!
# LinkedRing — circular lists through the links of their nodes

Every node has a link to the `next` and to the `prev` node. In a `Ring` the
links lead from a head through some nodes, each once, and back to the head.

* `Ring.rotate` — any node of a ring can be its head;
* `Ring.link_first`, `Ring.link_last`, `Ring.remove` — a node goes in behind or
  before the head, a node comes out;
* `remove_link` — a node that goes in and comes out again leaves no trace;
* `walk_eq` — a walk that reads the link of a node before it works on the node
  before it visits the nodes in their order, if its work leaves the ring alone.
-/

namespace DatastorQos.LinkedRing

universe u

variable {α σ : Type u}

/-- The two links of every node. -/
structure Links (α : Type u) where
  next : α → α
  prev : α → α

namespace Links

/-- Two neighbours, linked both ways. -/
def Joined (m : Links α) (a b : α) : Prop := m.next a = b ∧ m.prev b = a

variable [DecidableEq α]

instance (m : Links α) (a b : α) : Decidable (m.Joined a b) := inferInstanceAs (Decidable (_ ∧ _))

def setNext (m : Links α) (a b : α) : Links α := { m with next := Function.update m.next a b }

def setPrev (m : Links α) (a b : α) : Links α := { m with prev := Function.update m.prev a b }

/-- `x` between two nodes. -/
def link (m : Links α) (x before after : α) : Links α :=
  (((m.setPrev after x).setNext x after).setPrev x before).setNext before x

/-- Two nodes next to each other. -/
def unlink (m : Links α) (before after : α) : Links α :=
  (m.setPrev after before).setNext before after

/-- What is on either side of `x`, next to each other. -/
def remove (m : Links α) (x : α) : Links α := m.unlink (m.prev x) (m.next x)

/-- A node on its own. -/
def loop (m : Links α) (x : α) : Links α := (m.setNext x x).setPrev x x

variable {m : Links α} {a b x y before after : α}

theorem link_next : (m.link x before after).next y =
    if y = before then x else if y = x then after else m.next y := by
  simp only [link, setNext, setPrev, Function.update_apply]

theorem link_prev : (m.link x before after).prev y =
    if y = x then before else if y = after then x else m.prev y := by
  simp only [link, setNext, setPrev, Function.update_apply]

theorem unlink_next : (m.unlink before after).next y = if y = before then after else m.next y := by
  simp only [unlink, setNext, setPrev, Function.update_apply]

theorem unlink_prev : (m.unlink before after).prev y = if y = after then before else m.prev y := by
  simp only [unlink, setNext, setPrev, Function.update_apply]

theorem loop_next : (m.loop x).next y = if y = x then x else m.next y := by
  simp only [loop, setNext, setPrev, Function.update_apply]

theorem loop_prev : (m.loop x).prev y = if y = x then x else m.prev y := by
  simp only [loop, setNext, setPrev, Function.update_apply]

/-- A node that goes in between neighbours and comes out again leaves all others
as they were. -/
theorem remove_link (h : m.Joined before after) (hBefore : x ≠ before) (hy : y ≠ x) :
    ((m.link x before after).remove x).next y = m.next y ∧
      ((m.link x before after).remove x).prev y = m.prev y := by
  have hPrev : (m.link x before after).prev x = before := by rw [link_prev, if_pos rfl]
  have hNext : (m.link x before after).next x = after := by
    rw [link_next, if_neg hBefore, if_pos rfl]
  rw [remove, hPrev, hNext, unlink_next, unlink_prev, link_next, link_prev, if_neg hy, if_neg hy]
  constructor
  · by_cases hEnd : y = before
    · rw [if_pos hEnd, hEnd, h.1]
    · rw [if_neg hEnd, if_neg hEnd]
  · by_cases hEnd : y = after
    · rw [if_pos hEnd, hEnd, h.2]
    · rw [if_neg hEnd, if_neg hEnd]

end Links

/-- From `head` through the nodes of `l`, each once, and back. -/
structure Ring (m : Links α) (head : α) (l : List α) : Prop where
  joined : (head :: (l ++ [head])).IsChain m.Joined
  apart  : (head :: l).Nodup

-- ---------------------------------------------------------------------------
-- Chains of links
-- ---------------------------------------------------------------------------

/-- A chain reads the `next` links of all its nodes but the last, and the `prev`
links of all but the first. -/
theorem chain_congr {m m' : Links α} {a b : α} {l : List α}
    (h : (a :: (l ++ [b])).IsChain m.Joined) (hNext : ∀ x ∈ a :: l, m'.next x = m.next x)
    (hPrev : ∀ x ∈ l ++ [b], m'.prev x = m.prev x) : (a :: (l ++ [b])).IsChain m'.Joined := by
  induction l generalizing a with
  | nil =>
    obtain ⟨hab, -⟩ := List.isChain_cons_cons.mp h
    refine List.isChain_pair.mpr ⟨?_, ?_⟩
    · rw [hNext a List.mem_cons_self, hab.1]
    · rw [hPrev b List.mem_cons_self, hab.2]
  | cons x l ih =>
    obtain ⟨hax, hRest⟩ := List.isChain_cons_cons.mp h
    refine List.isChain_cons_cons.mpr ⟨⟨?_, ?_⟩, ih hRest ?_ ?_⟩
    · rw [hNext a List.mem_cons_self, hax.1]
    · rw [hPrev x List.mem_cons_self, hax.2]
    · exact fun y hy => hNext y (List.mem_cons_of_mem a hy)
    · exact fun y hy => hPrev y (List.mem_cons_of_mem x hy)

namespace Ring

variable {m m' : Links α} {head x y : α} {l before after : List α}

/-- The nodes of a ring are all it reads. -/
theorem congr (h : Ring m head l) (hNext : ∀ x ∈ head :: l, m'.next x = m.next x)
    (hPrev : ∀ x ∈ head :: l, m'.prev x = m.prev x) : Ring m' head l where
  joined := by
    refine chain_congr h.joined hNext fun x hx => hPrev x ?_
    rw [List.mem_append, List.mem_singleton] at hx
    exact List.mem_cons.mpr hx.symm
  apart := h.apart

theorem head_not_mem (h : Ring m head l) : head ∉ l := (List.nodup_cons.mp h.apart).1

/-- Where a ring leads after the nodes `before`. -/
theorem next_eq (h : Ring m head (before ++ x :: after)) : m.next x = after.headD head := by
  have hChain := h.joined
  rw [List.append_assoc, List.cons_append, List.isChain_cons_split] at hChain
  obtain ⟨-, hChain⟩ := hChain
  cases after with
  | nil => exact (List.isChain_cons_cons.mp hChain).1.1
  | cons y after => exact (List.isChain_cons_cons.mp hChain).1.1

theorem next_head (h : Ring m head l) : m.next head = l.headD head := by
  cases l with
  | nil => exact (List.isChain_cons_cons.mp h.joined).1.1
  | cons x l => exact (List.isChain_cons_cons.mp h.joined).1.1

theorem prev_head (h : Ring m head (l ++ [x])) : m.prev head = x := by
  have hChain := h.joined
  rw [List.append_assoc, List.singleton_append, List.isChain_cons_split] at hChain
  exact (List.isChain_cons_cons.mp hChain.2).1.2

theorem prev_head_mem (h : Ring m head l) : m.prev head ∈ head :: l := by
  rcases List.eq_nil_or_concat l with rfl | ⟨l, x, rfl⟩
  · rw [(List.isChain_cons_cons.mp h.joined).1.2]
    exact List.mem_cons_self
  · rw [List.concat_eq_append] at h ⊢
    rw [h.prev_head]
    exact List.mem_cons_of_mem _ (List.mem_append_right l List.mem_cons_self)

theorem joined_head (h : Ring m head l) : m.Joined head (m.next head) := by
  rw [h.next_head]
  cases l with
  | nil => exact (List.isChain_cons_cons.mp h.joined).1
  | cons x l => exact (List.isChain_cons_cons.mp h.joined).1

/-- A head is linked to itself exactly if it is alone. -/
theorem next_eq_head_iff (h : Ring m head l) : m.next head = head ↔ l = [] := by
  rw [h.next_head]
  cases l with
  | nil => simp
  | cons x l =>
    have hne : x ≠ head := fun heq => h.head_not_mem (heq ▸ List.mem_cons_self)
    simp [hne]

/-- **Any node can be the head.** -/
theorem rotate (h : Ring m head (before ++ x :: after)) : Ring m x (after ++ head :: before) where
  joined := by
    have hChain := h.joined
    rw [List.append_assoc, List.cons_append, List.isChain_cons_split] at hChain
    rw [List.append_assoc, List.cons_append, List.isChain_cons_split]
    exact hChain.symm
  apart := by
    have hPerm : ((head :: before) ++ (x :: after)).Perm ((x :: after) ++ (head :: before)) :=
      List.perm_append_comm
    exact hPerm.nodup_iff.mp h.apart

/-- The links of a ring stay in it. -/
theorem links_mem (h : Ring m head l) (hx : x ∈ head :: l) :
    m.next x ∈ head :: l ∧ m.prev x ∈ head :: l := by
  have hHead : ∀ {head : α} {l : List α}, Ring m head l → m.next head ∈ head :: l := by
    intro head l h
    rw [h.next_head]
    cases l <;> simp
  rcases List.mem_cons.mp hx with rfl | hx
  · exact ⟨hHead h, h.prev_head_mem⟩
  · obtain ⟨before, after, rfl⟩ := List.append_of_mem hx
    have hPerm : ((x :: after) ++ (head :: before)).Perm ((head :: before) ++ (x :: after)) :=
      List.perm_append_comm
    exact ⟨hPerm.mem_iff.mp (hHead h.rotate), hPerm.mem_iff.mp h.rotate.prev_head_mem⟩

variable [DecidableEq α]

/-- A node on its own is a ring. -/
theorem of_loop (m : Links α) (head : α) : Ring (m.loop head) head [] where
  joined := List.isChain_pair.mpr ⟨by rw [Links.loop_next, if_pos rfl],
    by rw [Links.loop_prev, if_pos rfl]⟩
  apart := List.nodup_singleton head

/-- What happens to other nodes. -/
theorem loop_other (h : Ring m head l) (hx : x ∉ head :: l) : Ring (m.loop x) head l := by
  have hne : ∀ z ∈ head :: l, z ≠ x := fun z hz heq => hx (heq ▸ hz)
  refine h.congr (fun z hz => ?_) fun z hz => ?_
  · rw [Links.loop_next, if_neg (hne z hz)]
  · rw [Links.loop_prev, if_neg (hne z hz)]

theorem link_other {a b : α} (h : Ring m head l) (hx : x ∉ head :: l) (ha : a ∉ head :: l)
    (hb : b ∉ head :: l) : Ring (m.link x a b) head l := by
  have hne : ∀ {y : α}, y ∉ head :: l → ∀ z ∈ head :: l, z ≠ y := fun hy z hz heq => hy (heq ▸ hz)
  refine h.congr (fun z hz => ?_) fun z hz => ?_
  · rw [Links.link_next, if_neg (hne ha z hz), if_neg (hne hx z hz)]
  · rw [Links.link_prev, if_neg (hne hx z hz), if_neg (hne hb z hz)]

theorem remove_other (h : Ring m head l) (hNext : m.next x ∉ head :: l)
    (hPrev : m.prev x ∉ head :: l) : Ring (m.remove x) head l := by
  refine h.congr (fun z hz => ?_) fun z hz => ?_
  · have hne : z ≠ m.prev x := by
      rintro rfl
      exact hPrev hz
    rw [Links.remove, Links.unlink_next, if_neg hne]
  · have hne : z ≠ m.next x := by
      rintro rfl
      exact hNext hz
    rw [Links.remove, Links.unlink_prev, if_neg hne]

/-- A node that goes in right behind the head. -/
theorem link_first (h : Ring m head l) (hx : x ∉ head :: l) :
    Ring (m.link x head (m.next head)) head (x :: l) := by
  have hne : x ≠ head := fun heq => hx (heq ▸ List.mem_cons_self)
  have hHead : (m.link x head (m.next head)).next head = x := by rw [Links.link_next, if_pos rfl]
  have hNext : (m.link x head (m.next head)).next x = m.next head := by
    rw [Links.link_next, if_neg hne, if_pos rfl]
  have hPrev : (m.link x head (m.next head)).prev x = head := by rw [Links.link_prev, if_pos rfl]
  refine ⟨?_, ?_⟩
  · refine List.isChain_cons_cons.mpr ⟨⟨hHead, hPrev⟩, ?_⟩
    cases l with
    | nil =>
      have hAlone : m.next head = head := h.next_head
      refine List.isChain_pair.mpr ⟨hNext.trans hAlone, ?_⟩
      rw [Links.link_prev, if_neg hne.symm, if_pos hAlone.symm]
    | cons y l =>
      obtain ⟨hy, hRest⟩ := List.isChain_cons_cons.mp h.joined
      have hApart := List.nodup_cons.mp (List.nodup_cons.mp h.apart).2
      have hyx : y ≠ x := fun heq => hx (heq ▸ List.mem_cons_of_mem _ List.mem_cons_self)
      refine List.isChain_cons_cons.mpr ⟨⟨hNext.trans hy.1, ?_⟩, chain_congr hRest ?_ ?_⟩
      · rw [Links.link_prev, if_neg hyx, if_pos hy.1.symm]
      · intro z hz
        have hzHead : z ≠ head := fun heq => h.head_not_mem (heq ▸ hz)
        have hzx : z ≠ x := fun heq => hx (heq ▸ List.mem_cons_of_mem _ hz)
        rw [Links.link_next, if_neg hzHead, if_neg hzx]
      · intro z hz
        rw [List.mem_append, List.mem_singleton] at hz
        have hzx : z ≠ x := by
          rintro rfl
          exact hx (hz.elim (fun hz => List.mem_cons_of_mem _ (List.mem_cons_of_mem _ hz))
            fun heq => heq ▸ List.mem_cons_self)
        have hzy : z ≠ m.next head := by
          rintro rfl
          rw [hy.1] at hz
          exact hz.elim hApart.1 fun heq => h.head_not_mem (heq ▸ List.mem_cons_self)
        rw [Links.link_prev, if_neg hzx, if_neg hzy]
  · refine (List.Perm.nodup_iff (List.Perm.swap head x l)).mp ?_
    exact List.nodup_cons.mpr ⟨hx, h.apart⟩

/-- A node that goes in right before the head. -/
theorem link_last (h : Ring m head l) (hx : x ∉ head :: l) :
    Ring (m.link x (m.prev head) head) head (l ++ [x]) := by
  rcases List.eq_nil_or_concat l with rfl | ⟨l, z, rfl⟩
  · have hNext : m.next head = head := h.next_head
    have hPrev : m.prev head = head := (List.isChain_cons_cons.mp h.joined).1.2
    have hFirst := h.link_first hx
    rw [hNext] at hFirst
    rwa [hPrev]
  · rw [List.concat_eq_append] at h hx
    have hTurned := h.rotate
    rw [List.nil_append] at hTurned
    have hNext : m.next z = head := hTurned.next_head
    have hxTurned : x ∉ z :: head :: l := by
      simpa [or_left_comm, or_comm, or_assoc] using hx
    have hFirst := hTurned.link_first hxTurned
    have hBack := (show Ring _ z ([x] ++ head :: l) from hFirst).rotate
    rw [hNext] at hBack
    rw [List.concat_eq_append, h.prev_head]
    simpa using hBack

/-- The first node comes out. -/
theorem remove_first (h : Ring m head (x :: l)) : Ring (m.remove x) head l := by
  obtain ⟨hHead, hRest⟩ := List.isChain_cons_cons.mp h.joined
  have hApart := List.nodup_cons.mp (List.nodup_cons.mp h.apart).2
  rw [Links.remove, hHead.2]
  refine ⟨?_, (h.apart.sublist ((List.sublist_cons_self x l).cons_cons head))⟩
  cases l with
  | nil =>
    have hNext : m.next x = head := (List.isChain_cons_cons.mp hRest).1.1
    refine List.isChain_pair.mpr ⟨?_, ?_⟩
    · rw [Links.unlink_next, if_pos rfl, hNext]
    · rw [Links.unlink_prev, if_pos hNext.symm]
  | cons y l =>
    obtain ⟨hxy, hRest⟩ := List.isChain_cons_cons.mp hRest
    refine List.isChain_cons_cons.mpr ⟨⟨?_, ?_⟩, chain_congr hRest ?_ ?_⟩
    · rw [Links.unlink_next, if_pos rfl, hxy.1]
    · rw [Links.unlink_prev, if_pos hxy.1.symm]
    · intro z hz
      have hzHead : z ≠ head := fun heq => h.head_not_mem (heq ▸ List.mem_cons_of_mem _ hz)
      rw [Links.unlink_next, if_neg hzHead]
    · intro z hz
      rw [List.mem_append, List.mem_singleton] at hz
      have hzy : z ≠ m.next x := by
        rintro rfl
        rw [hxy.1] at hz
        refine hz.elim (List.nodup_cons.mp hApart.2).1 fun heq => h.head_not_mem ?_
        exact heq ▸ List.mem_cons_of_mem _ List.mem_cons_self
      rw [Links.unlink_prev, if_neg hzy]

/-- A node comes out. -/
theorem remove (h : Ring m head (before ++ x :: after)) :
    Ring (m.remove x) head (before ++ after) := by
  rcases List.eq_nil_or_concat before with rfl | ⟨before, z, rfl⟩
  · exact h.remove_first
  · simp only [List.concat_eq_append, List.append_assoc, List.singleton_append] at h ⊢
    exact h.rotate.remove_first.rotate

/-- The head comes out, and leaves a ring of the others. -/
theorem remove_head (h : Ring m head (x :: l)) : Ring (m.remove head) x l := by
  have hTurned : Ring m x (l ++ head :: []) := (h : Ring m head ([] ++ x :: l)).rotate
  simpa using hTurned.remove

end Ring

-- ---------------------------------------------------------------------------
-- Walks
-- ---------------------------------------------------------------------------

/-- A walk from node to node up to `head`, through at most `fuel` of them. The
node `n` that follows is known before the work on `pos` begins; the work may
fail, or say that this was the last. -/
def walk [DecidableEq α] (links : σ → Links α) (work : σ → α → Option (σ × Bool)) (head : α) :
    ℕ → α → α → σ → Option (σ × List α)
  | 0, _, _, _ => none
  | fuel + 1, pos, n, s =>
    if pos = head then some (s, [])
    else do
      let (s, more) ← work s pos
      if more then
        let (s, visited) ← walk links work head fuel n ((links s).next n) s
        return (s, pos :: visited)
      else
        return (s, [pos])

/-- The same work on the elements of a list. -/
def visit (work : σ → α → Option (σ × Bool)) : List α → σ → Option (σ × List α)
  | [], s => some (s, [])
  | x :: l, s => do
    let (s, more) ← work s x
    if more then
      let (s, visited) ← visit work l s
      return (s, x :: visited)
    else
      return (s, [x])

variable {links : σ → Links α} {work : σ → α → Option (σ × Bool)} {head : α} {l : List α}

/-- Work that goes on to the end is done on every element. -/
theorem visit_all {f : σ → α → σ} (hWork : ∀ s x, work s x = some (f s x, true)) (l : List α)
    (s : σ) : visit work l s = some (l.foldl f s, l) := by
  induction l generalizing s with
  | nil => rfl
  | cons x l ih => simp [visit, hWork, ih]

/-- What the work keeps, all of it keeps. -/
theorem visit_keeps {I : σ → Prop}
    (hWork : ∀ s s' x more, I s → x ∈ l → work s x = some (s', more) → I s') {s s' : σ}
    {visited : List α} (hs : I s) (h : visit work l s = some (s', visited)) : I s' := by
  induction l generalizing s visited with
  | nil =>
    obtain ⟨rfl, -⟩ := Prod.mk.inj (Option.some.inj h)
    exact hs
  | cons x l ih =>
    obtain ⟨⟨s₁, more⟩, hx, h⟩ := Option.bind_eq_some_iff.mp h
    have hs₁ := hWork s s₁ x more hs List.mem_cons_self hx
    simp only at h
    split at h
    · obtain ⟨⟨s₂, rest⟩, hRest, h⟩ := Option.bind_eq_some_iff.mp h
      obtain ⟨rfl, -⟩ := Prod.mk.inj (Option.some.inj h)
      exact ih (fun s s' y more hs hy => hWork s s' y more hs (List.mem_cons_of_mem x hy)) hs₁ hRest
    · obtain ⟨rfl, -⟩ := Prod.mk.inj (Option.some.inj h)
      exact hs₁

variable [DecidableEq α]

/-- A walk on its way, with the nodes `before` behind it. -/
private theorem walk_rest {I : σ → Prop} (hRing : ∀ s, I s → Ring (links s) head l)
    (hWork : ∀ s s' x more, I s → x ∈ l → work s x = some (s', more) → I s')
    {before rest : List α} (hl : l = before ++ rest) {fuel : ℕ} (hFuel : rest.length < fuel) {n : α}
    (hn : rest ≠ [] → n = rest.tail.headD head) {s : σ} (hs : I s) :
    walk links work head fuel (rest.headD head) n s = visit work rest s := by
  induction rest generalizing before fuel n s with
  | nil =>
    obtain ⟨fuel, rfl⟩ := Nat.exists_eq_succ_of_ne_zero (Nat.ne_of_gt hFuel)
    simp [walk, visit]
  | cons x rest ih =>
    obtain ⟨fuel, rfl⟩ := Nat.exists_eq_succ_of_ne_zero (Nat.ne_of_gt (Nat.zero_lt_of_lt hFuel))
    have hMem : x ∈ l := hl ▸ List.mem_append_right before List.mem_cons_self
    have hne : x ≠ head := fun heq => (hRing s hs).head_not_mem (heq ▸ hMem)
    rw [List.headD_cons, walk, if_neg hne, visit]
    cases hx : work s x with
    | none => rfl
    | some res =>
      obtain ⟨s', more⟩ := res
      simp only [Option.bind_eq_bind, Option.bind_some]
      cases more with
      | false => rfl
      | true =>
        have hs' := hWork s s' x true hs hMem hx
        have hRest : l = (before ++ [x]) ++ rest := by rw [hl, List.append_cons]
        have hNext : rest ≠ [] → (links s').next n = rest.tail.headD head := by
          intro hSome
          obtain ⟨y, rest, rfl⟩ := List.exists_cons_of_ne_nil hSome
          rw [hn (List.cons_ne_nil _ _)]
          exact ((hRest ▸ hRing s' hs').next_eq : _)
        have hPos : n = rest.headD head := hn (List.cons_ne_nil _ _)
        rw [if_pos rfl, if_pos rfl, ← ih hRest (Nat.lt_of_succ_lt_succ hFuel) hNext hs', hPos]

/-- **A walk visits the nodes of a ring in their order**, if its work leaves the
ring alone. -/
theorem walk_eq {I : σ → Prop} (hRing : ∀ s, I s → Ring (links s) head l)
    (hWork : ∀ s s' x more, I s → x ∈ l → work s x = some (s', more) → I s')
    {fuel : ℕ} (hFuel : l.length < fuel) {s : σ} (hs : I s) :
    walk links work head fuel ((links s).next head) ((links s).next ((links s).next head)) s =
      visit work l s := by
  have hFirst := (hRing s hs).next_head
  have hNext : l ≠ [] → (links s).next ((links s).next head) = l.tail.headD head := by
    intro hSome
    obtain ⟨x, l, rfl⟩ := List.exists_cons_of_ne_nil hSome
    rw [hFirst]
    exact ((List.nil_append (x :: l)).symm ▸ hRing s hs).next_eq
  rw [← walk_rest hRing hWork (List.nil_append l).symm hFuel hNext hs, hFirst]

end DatastorQos.LinkedRing
