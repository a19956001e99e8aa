import DatastorQos.App.GrpHeap

/-!
# nodereq_list — the wait queue of one node

The model of `sysqos_nodereq_list.c`: the queued requests, oldest first, and
`press`, the running sum of their costs.
-/

namespace DatastorQos

/-- `nodereq_list_t`. -/
structure NodereqList (Id : Type) where
  press     : ULong
  tokenList : List (ResourceList Id)
  deriving DecidableEq, Repr

namespace NodereqList

variable {Id : Type}

/-- `nodereq_list_init`. -/
def init : NodereqList Id where
  press     := 0
  tokenList := []

/-- `push_back`. -/
def pushBack (tokens : NodereqList Id) (rs : ResourceList Id) : NodereqList Id where
  press     := tokens.press + rs.rs.cost
  tokenList := tokens.tokenList ++ [rs]

/-- `front`; `none` is `NULL`. -/
def front (tokens : NodereqList Id) : Option (ResourceList Id) := tokens.tokenList.head?

/-- `pop_front`. -/
def popFront (tokens : NodereqList Id) : NodereqList Id :=
  match tokens.tokenList with
  | [] => tokens
  | rs :: rest => ⟨tokens.press - rs.rs.cost, rest⟩

/-- `pop_all`: the emptied queue and what was in it. `press` is reset only
when there was something to pop. -/
def popAll (tokens : NodereqList Id) : NodereqList Id × List (ResourceList Id) :=
  match tokens.tokenList with
  | [] => (tokens, [])
  | rs :: rest => (⟨0, []⟩, rs :: rest)

/-- `erase`, of the queued `rs`. -/
def erase [DecidableEq Id] (tokens : NodereqList Id) (rs : ResourceList Id) : NodereqList Id where
  press     := tokens.press - rs.rs.cost
  tokenList := tokens.tokenList.erase rs

/-- `get_press`. Of the local `p` only the two fields are written; the rest is
what it happens to hold. -/
def getPress (tokens : NodereqList Id) (p : PressT) : PressT :=
  (p.setType pressTypeFifo).setFifoDepth tokens.press

@[simp] theorem init_tokenList : (init : NodereqList Id).tokenList = [] := rfl

@[simp] theorem pushBack_tokenList (tokens : NodereqList Id) (rs : ResourceList Id) :
    (tokens.pushBack rs).tokenList = tokens.tokenList ++ [rs] := rfl

theorem pushBack_front (tokens : NodereqList Id) (rs : ResourceList Id) :
    (tokens.pushBack rs).front = tokens.front.or (some rs) := by
  simp [front]

@[simp] theorem popAll_tokenList (tokens : NodereqList Id) : tokens.popAll.1.tokenList = [] := by
  unfold popAll
  split
  · assumption
  · rfl

@[simp] theorem popAll_popped (tokens : NodereqList Id) :
    tokens.popAll.2 = tokens.tokenList := by
  unfold popAll
  split <;> simp_all

/-- `press` is the sum of the queued costs, as `unsigned long` computes it. -/
def PressEq (tokens : NodereqList Id) : Prop :=
  tokens.press = (tokens.tokenList.map fun rs => rs.rs.cost).sum

theorem pressEq_init : (init : NodereqList Id).PressEq := rfl

theorem PressEq.pushBack {tokens : NodereqList Id} (h : tokens.PressEq) (rs : ResourceList Id) :
    (tokens.pushBack rs).PressEq := by
  unfold PressEq at h ⊢
  simp [NodereqList.pushBack, h]

theorem PressEq.popFront {tokens : NodereqList Id} (h : tokens.PressEq) :
    tokens.popFront.PressEq := by
  unfold PressEq at h ⊢
  unfold NodereqList.popFront
  split
  · exact h
  · rename_i rs rest heq
    rw [heq, List.map_cons, List.sum_cons] at h
    simp only [h]
    bv_omega

theorem PressEq.erase [DecidableEq Id] {tokens : NodereqList Id} (h : tokens.PressEq)
    {rs : ResourceList Id} (hQueued : rs ∈ tokens.tokenList) : (tokens.erase rs).PressEq := by
  unfold PressEq at h ⊢
  have hSum := ((List.perm_cons_erase hQueued).map fun rs => rs.rs.cost).sum_eq
  rw [List.map_cons, List.sum_cons] at hSum
  simp only [NodereqList.erase, h, hSum, add_sub_cancel_left]

theorem PressEq.popAll {tokens : NodereqList Id} (h : tokens.PressEq) :
    tokens.popAll.1.PressEq := by
  unfold NodereqList.popAll
  split
  · exact h
  · rfl

end NodereqList

end DatastorQos
