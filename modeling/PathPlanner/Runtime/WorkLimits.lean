import Mathlib.Data.UInt
import PathPlanner.Planner.Reached
import PathPlanner.Runtime.AuthorityFilter

/-!
# Work limits

A work limit decides whether there is an answer, and never which one. An enumeration that reports no
limit returns the same under every larger budget, and one that reports a limit returns no paths, so
that `Plan` reports the limit without candidates.

## Main definitions

* `PlanningView.withSearchStates`: a view with another bound on the states of a search
* `WorkLimitsOnlyStop`: what a work limit may do

## Main results

* `enumerateCandidatePaths_mono`: a larger budget does not change an answer
* `workLimitsOnlyStop`: **work limits never change an answer**
-/

namespace PathPlanner

open Meter

/-- The view with another bound on the states of one search. -/
def PlanningView.withSearchStates (view : PlanningView) (states : UInt64) : PlanningView :=
  view.reconfigured { view.limits with maxSearchStates := states } view.rejections

/-- **A larger budget** does not change an answer. -/
theorem enumerateCandidatePaths_mono {view : PlanningView} {request : PlanningRequest}
    {options : EnumerationOptions} {work work' : Work} {states : UInt64}
    (hwork : work.remaining ≤ work'.remaining) (hstates : view.limits.maxSearchStates ≤ states)
    (h : (enumerateCandidatePaths view request options work).1.resourceLimit = false) :
    (enumerateCandidatePaths (view.withSearchStates states) request options work').1 =
      (enumerateCandidatePaths view request options work).1 := by
  have hview : enumerateCandidatePaths (view.withSearchStates states) request options work =
      enumerateCandidatePaths view request options work :=
    enumerateCandidatePaths_reconfigured rfl rfl (Or.inr ⟨hstates, h⟩)
  -- over the view with the larger bound the enumeration is metered
  rw [← hview] at h
  obtain ⟨n, result, -, hsmall, hlarge⟩ := (enumerateCandidatePaths_isMetered
    (view.withSearchStates states) options request).mono h hwork
  rw [hlarge, ← hview, hsmall]

/-- What a work limit may do: an answer does not change under a larger budget, and where there is no
answer there are no paths and no candidates. -/
structure WorkLimitsOnlyStop : Prop where
  same : ∀ (view : PlanningView) (request : PlanningRequest) (options : EnumerationOptions)
    (work work' : Work) (states : UInt64), work.remaining ≤ work'.remaining →
    view.limits.maxSearchStates ≤ states →
    (enumerateCandidatePaths view request options work).1.resourceLimit = false →
      (enumerateCandidatePaths (view.withSearchStates states) request options work').1 =
        (enumerateCandidatePaths view request options work).1
  nothing : ∀ (view : PlanningView) (request : PlanningRequest) (options : EnumerationOptions)
    (work : Work), (enumerateCandidatePaths view request options work).1.resourceLimit = true →
      (enumerateCandidatePaths view request options work).1.paths = []
  reported : ∀ (sha : List UInt8 → Sha256Digest) (capture : PlanCapture) (request : PlanningRequest)
    (compared published : RuntimeState) (r : Reaches capture request), r.Searches →
    (enumerateCandidatePaths r.built.view request (enumerationOptions capture.limits request r.built)
      (initialWork capture.limits)).1.resourceLimit = true →
    ¬ compared.MovedFrom capture r.snapshot →
      (RuntimeState.planResult sha capture request compared published).status = .resourceLimit ∧
        (RuntimeState.planResult sha capture request compared published).candidates = []

/-- **Work limits never change an answer.** -/
theorem workLimitsOnlyStop : WorkLimitsOnlyStop where
  same _ _ _ _ _ _ hwork hstates h := enumerateCandidatePaths_mono hwork hstates h
  nothing _ _ _ _ h := (enumerateCandidatePaths_limited h).2
  reported sha capture request compared published r hsearches hlimit hmoved := by
    obtain ⟨hcomputed, hstatus⟩ := r.computePlan_of_limited hsearches hlimit
    have hkept := RuntimeState.comparePlan_of_not_movedFrom (r.computed sha []) hmoved
    constructor
    · rw [(RuntimeState.planResult_eq hcomputed).1, hkept, hstatus]
    · unfold RuntimeState.planResult
      rw [hcomputed]
      dsimp only
      rw [hkept]
      rfl

/-- A budget that is too small for the single link. -/
def onePush : ResourceLimits := { maxQueueEntries := 1 }

/-- The path over the first of the parallel links is found under every larger budget, and a call
with one push reports the limit. -/
theorem workLimitsOnlyStop_singleLink :
    (∀ work : Work, smallBudget.remaining ≤ work.remaining →
      (enumerateCandidatePaths (parallelView.view.withSearchStates (2 ^ 40)) (.between 1 2)
        { sourceView := 0, destinationView := 1, maxHops := 1 } work).1.paths = [⟨[0, 1], [0]⟩]) ∧
    (RuntimeState.planResult constantHash (captureUnder onePush singleLink .validated)
      (.between 1 2) (runtimeUnder onePush singleLink)
        (runtimeUnder onePush singleLink)).status = .resourceLimit := by
  refine ⟨fun work hwork => ?_, by decide +kernel⟩
  rw [workLimitsOnlyStop.same parallelView.view (.between 1 2)
    { sourceView := 0, destinationView := 1, maxHops := 1 } smallBudget work (2 ^ 40) hwork
    (by decide +kernel) (by decide +kernel)]
  decide +kernel

end PathPlanner
