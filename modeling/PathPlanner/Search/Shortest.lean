import PathPlanner.Search.Expanded
import PathPlanner.Search.Plain
import PathPlanner.View.Eligible

/-!
# Shortest paths

`ShortestPath` answers the trivial cases, and otherwise chooses the search over nodes where the hop
bound cannot cut off a simple path, and the search over hop counts and nodes where it can. Either
way the outcome is the canonical path.

## Main definitions

* `shortestPath`: the choice between the searches

## Main results

* `shortestPath_spec`: a search that is not cut off finds the canonical path
* `shortestPath_canonical`: the same for every hop budget, with the agreement of the two searches
-/

namespace PathPlanner

open Multigraph

/-- `Searcher::ShortestPath`. -/
def shortestPath (view : PlanningView) (hopBudget : ℕ) (bans : BanSet) (source dest : ℕ)
    (work : Work) : SearchOutcome × Work :=
  if source = dest then ({ found := true, path := ⟨[source], []⟩ }, work)
  else if source ≥ view.nodeCount ∨ dest ≥ view.nodeCount then ({}, work)
  else if hopBudget = 0 then ({}, work)
  else if hopBudget = noHopBound then plainSearch view noHopBound bans source dest work
  else
    let simpleBound := if view.nodeCount = 0 then 0 else view.nodeCount - 1
    if hopBudget < simpleBound then expandedSearch view hopBudget bans source dest work
    else plainSearch view hopBudget bans source dest work

variable {view : PlanningView} {hopBudget : ℕ} {bans : BanSet} {source dest : ℕ} {work : Work}

/-- From a node to itself the path without hops is the canonical path. -/
theorem isCanonicalPath_nil : IsCanonicalPath view bans source source hopBudget [] where
  admissible := {
    isWalk := trivial
    finish := rfl
    isSimple := by simp [IsSimple]
    withinHops := Or.inr (Nat.zero_le _)
    unbanned := by simp
    weight_lt := by simp [PlanningView.pathWeight] }
  least q hq hne := absurd (hq.isSimple.eq_nil_of_finish_eq hq.finish) hne

/-- Without a hop only the source is reached. -/
theorem not_isAdmissible_zero (h : source ≠ dest) (path : List ℕ) :
    ¬ IsAdmissible view bans source dest 0 path := by
  intro hp
  rcases hp.withinHops with he | hle
  · cases he
  · obtain rfl := List.length_eq_zero_iff.mp (Nat.le_zero.mp hle)
    exact h hp.finish

/-- No path leaves the nodes of the view. -/
theorem not_isAdmissible_of_le (wf : view.WellFormed) (hsource : source < view.nodeCount)
    (h : view.nodeCount ≤ dest) (path : List ℕ) :
    ¬ IsAdmissible view bans source dest hopBudget path := by
  intro hp
  have hlt := wf.lt_of_mem_nodes hsource hp.isWalk _ finish_mem_nodes
  rw [hp.finish] at hlt
  omega

/-- **A search that is not cut off** finds the canonical path, whichever search is chosen. -/
theorem shortestPath_spec (wf : view.WellFormed) (hsource : source < view.nodeCount)
    (hlimit : (shortestPath view hopBudget bans source dest work).1.resourceLimit = false) :
    FindsCanonical view bans source dest hopBudget
      (shortestPath view hopBudget bans source dest work).1 := by
  have hn := wf.nodeCount_lt
  have hsimple : (if view.nodeCount = 0 then 0 else view.nodeCount - 1) = view.nodeCount - 1 :=
    if_neg (by omega)
  unfold shortestPath at hlimit ⊢
  simp only [hsimple] at hlimit ⊢
  split_ifs at hlimit ⊢ with heq hrange hzero hnone hbound
  · subst heq
    exact .inl ⟨rfl, [], by simp [PlanningView.rawPath], isCanonicalPath_nil⟩
  · have hdest : view.nodeCount ≤ dest := by
      rcases hrange with h | h
      · omega
      · exact h
    exact .inr ⟨rfl, not_isAdmissible_of_le wf hsource hdest⟩
  · subst hzero
    exact .inr ⟨rfl, not_isAdmissible_zero heq⟩
  · subst hnone
    exact plainSearch_spec wf hsource (Or.inl rfl) hlimit
  · refine expandedSearch_spec wf hsource ?_ hlimit
    unfold noHopBound
    omega
  · exact plainSearch_spec wf hsource (Or.inr (not_lt.mp hbound)) hlimit

/-- **Shortest paths are canonical** under every ban set and every hop budget, as long as the work
budget does not cut the search off; and on a finite bound that admits every simple path the two
searches agree. -/
theorem shortestPath_canonical (wf : view.WellFormed) (hsource : source < view.nodeCount) :
    (∀ hopBudget bans dest work,
      (shortestPath view hopBudget bans source dest work).1.resourceLimit = false →
        FindsCanonical view bans source dest hopBudget
          (shortestPath view hopBudget bans source dest work).1) ∧
    ∀ hopBudget < noHopBound, view.nodeCount - 1 ≤ hopBudget → ∀ bans dest work work',
      (plainSearch view hopBudget bans source dest work).1.resourceLimit = false →
      (expandedSearch view hopBudget bans source dest work').1.resourceLimit = false →
        (plainSearch view hopBudget bans source dest work).1.found =
            (expandedSearch view hopBudget bans source dest work').1.found ∧
          ((plainSearch view hopBudget bans source dest work).1.found = true →
            (plainSearch view hopBudget bans source dest work).1.path =
              (expandedSearch view hopBudget bans source dest work').1.path) := by
  refine ⟨fun _ _ _ _ hlimit => shortestPath_spec wf hsource hlimit, ?_⟩
  intro hopBudget hlt hbound bans dest work work' hplain hexpanded
  exact (plainSearch_spec wf hsource (Or.inr hbound) hplain).agree
    (expandedSearch_spec wf hsource hlt hexpanded)

/-- A budget for small searches. -/
def smallBudget : Work where
  budget := { statesRemaining := 100, pushesRemaining := 100, spurRemaining := 100 }
  stats := {}

theorem wellFormed_parallelView : parallelView.view.WellFormed :=
  (buildPlanningView_isCheckedView parallelView_eq).1.wellFormed

theorem shortestPath_canonical_parallelView :
    FindsCanonical parallelView.view {} 0 1 noHopBound
        (shortestPath parallelView.view noHopBound {} 0 1 smallBudget).1 ∧
      (plainSearch parallelView.view 3 {} 0 1 smallBudget).1.path =
        (expandedSearch parallelView.view 3 {} 0 1 smallBudget).1.path := by
  have h := shortestPath_canonical wellFormed_parallelView
    (show 0 < parallelView.view.nodeCount by decide +kernel)
  exact ⟨h.1 noHopBound {} 1 smallBudget (by decide +kernel),
    (h.2 3 (by decide) (by decide +kernel) {} 1 smallBudget smallBudget (by decide +kernel)
      (by decide +kernel)).2 (by decide +kernel)⟩

end PathPlanner
