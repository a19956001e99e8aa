import DatastorQos.Lib.LinkedRing

/-!
# list_head — lists through a link inside each element

The model of `list_head.h` and of `list_for_each_safe` in `sysqos_common.h`. A
`struct list_head` is known by its address, and so is the element that it is
inside of: what `container_of` recovers is the same address. Memory is the
`next` and the `prev` of every one of them.
-/

namespace DatastorQos

open LinkedRing

/-- The address of a `struct list_head`. -/
abbrev ListHeadPtr := Nat

/-- Every `struct list_head`. -/
abbrev ListMem := Links ListHeadPtr

namespace ListMem

/-- `LISTHEAD_INIT`. -/
def listheadInit (m : ListMem) (head : ListHeadPtr) : ListMem := m.loop head

/-- `list_empty`. -/
def listEmpty (m : ListMem) (head : ListHeadPtr) : Bool := m.next head = head

/-- `__list_add`. -/
def listAddBetween (m : ListMem) (newNode prev next : ListHeadPtr) : ListMem :=
  m.link newNode prev next

/-- `list_add`. -/
def listAdd (m : ListMem) (newNode head : ListHeadPtr) : ListMem :=
  m.listAddBetween newNode head (m.next head)

/-- `list_add_tail`. -/
def listAddTail (m : ListMem) (newNode head : ListHeadPtr) : ListMem :=
  m.listAddBetween newNode (m.prev head) head

/-- `__list_del`. -/
def listDelBetween (m : ListMem) (prev next : ListHeadPtr) : ListMem := m.unlink prev next

/-- `list_del`. -/
def listDel (m : ListMem) (entry : ListHeadPtr) : ListMem :=
  m.listDelBetween (m.prev entry) (m.next entry)

/-- `list_for_each_safe`, for at most `fuel` tests of its condition, with the
elements it visits. -/
def listForEachSafe {σ : Type} (mem : σ → ListMem) (fuel : Nat) (head : ListHeadPtr)
    (body : σ → ListHeadPtr → Option (σ × Bool)) (s : σ) : Option (σ × List ListHeadPtr) :=
  walk mem body head fuel ((mem s).next head) ((mem s).next ((mem s).next head)) s

end ListMem

end DatastorQos
