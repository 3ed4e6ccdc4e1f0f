import PathPlanner.Search.Basic

/-!
# The reconstruction walk

Both searches end with the same greedy walk: from the source, take the first entry that passes the
search's test, until the destination is met. When the test is tightness with reachability of the
destination, the walk is the greedy walk of the layered costs.

## Main definitions

* `carriesCost`: whether an entry carries one label to another
* `reconstruct`: the walk, with the test and the end condition of the search

## Main results

* `reconstruct_spec`: the walk never gets stuck, and is the greedy one
-/

namespace PathPlanner

open Multigraph

variable (view : PlanningView)

/-- Whether the increment of an entry is representable and carries `cost` to `next`. -/
def carriesCost (k : ℕ) (cost next : CostValue) : Bool :=
  (view.hopIncrement (view.adjacencyAt k)).bind (checkedAdd cost) = some next

/-- The walk that closes `PlainSearch` and `ExpandedSearch`: at most `fuel` entries are taken, each
the first that passes `step`. -/
def reconstruct (arrived : ℕ → ℕ → Bool) (step : ℕ → ℕ → ℕ → Bool) :
    ℕ → ℕ → ℕ → RawPath → Option RawPath
  | fuel, hops, current, path =>
    if arrived hops current then some path
    else
      match fuel with
      | 0 => none
      | fuel + 1 =>
        match (view.adjacencyRange current).find? (step hops current) with
        | none => none
        | some k =>
          let target := (view.adjacencyAt k).target
          reconstruct arrived step fuel (hops + 1) target
            ⟨path.nodes ++ [target], path.adjacency ++ [k]⟩

section Spec

variable {view} {bans : BanSet} {lab : ℕ → ℕ → Option ℕ} {dest bestHops : ℕ}
  {arrived : ℕ → ℕ → Bool} {step : ℕ → ℕ → ℕ → Bool}

/-- The increment of an entry is the exact one, when that is representable. -/
theorem hopIncrement_eq_some_iff {k : ℕ} {increment : CostValue} :
    view.hopIncrement (view.adjacencyAt k) = some increment ↔
      view.exactIncrement k = increment.value :=
  checkedAdd_eq_some_iff

theorem hopIncrement_eq_none_iff {k : ℕ} :
    view.hopIncrement (view.adjacencyAt k) = none ↔ 2 ^ 64 ≤ view.exactIncrement k :=
  checkedAdd_eq_none_iff

/-- An entry carries a label to another exactly when the costs differ by the exact increment. -/
theorem carriesCost_iff {k : ℕ} {cost next : CostValue} :
    carriesCost view k cost next = true ↔ cost.value + view.exactIncrement k = next.value := by
  simp only [carriesCost, decide_eq_true_eq, Option.bind_eq_some_iff, hopIncrement_eq_some_iff,
    checkedAdd_eq_some_iff]
  constructor
  · rintro ⟨increment, hi, hs⟩
    omega
  · intro h
    have := next.lt
    exact ⟨⟨view.exactIncrement k, by omega⟩, rfl, h⟩

/-- **The walk is the greedy one**: where the test is tightness with reachability, the walk from a
labelled node that reaches the destination gets there. -/
theorem reconstruct_spec
    (hstep : ∀ hops u k, lab hops u ≠ none → hops < bestHops → (step hops u k = true ↔
      view.allowed bans k = true ∧
      (view.searchGraph bans).IsTightEdge view.exactIncrement lab hops u k ∧
      (view.searchGraph bans).Reaches view.exactIncrement lab dest (bestHops - hops - 1) (hops + 1)
        ((view.adjacencyAt k).target)))
    (harrived : ∀ hops u, lab hops u ≠ none → hops ≤ bestHops →
      (view.searchGraph bans).Reaches view.exactIncrement lab dest (bestHops - hops) hops u →
      (arrived hops u = true ↔ hops = bestHops))
    {n hops u : ℕ} (hn : hops + n = bestHops) (hl : lab hops u ≠ none)
    (hr : (view.searchGraph bans).Reaches view.exactIncrement lab dest n hops u) (path : RawPath) :
    ∃ es, (view.searchGraph bans).IsGreedy view.exactIncrement lab dest n hops u es ∧
      reconstruct view arrived step n hops u path =
        some ⟨path.nodes ++ es.map view.graph.target, path.adjacency ++ es⟩ := by
  induction n generalizing hops u path with
  | zero =>
    obtain rfl := reaches_zero.mp hr
    refine ⟨[], .nil hops, ?_⟩
    have ha : arrived hops u = true :=
      (harrived hops u hl (by omega) (by rw [show bestHops - hops = 0 by omega]; exact hr)).mpr hn
    simp [reconstruct, ha]
  | succ n ih =>
    have ha : ¬ arrived hops u = true := fun h => by
      have := (harrived hops u hl (by omega)
        (by rw [show bestHops - hops = n + 1 by omega]; exact hr)).mp h
      omega
    have hspec := fun k => hstep hops u k hl (by omega)
    rw [show bestHops - hops - 1 = n by omega] at hspec
    obtain ⟨e, he, hte, hre⟩ := reaches_succ.mp hr
    have hemem := PlanningView.mem_searchGraph_out.mp he
    -- some entry passes the test, so a first one does
    obtain ⟨k, hk⟩ : ∃ k, (view.adjacencyRange u).find? (step hops u) = some k := by
      rw [← Option.isSome_iff_exists, List.find?_isSome]
      exact ⟨e, hemem.1, (hspec e).mpr ⟨hemem.2, hte, hre⟩⟩
    obtain ⟨hkstep, as, bs, hsplit, hfirst⟩ := List.find?_eq_some_iff_append.mp hk
    obtain ⟨hkal, hkt, hkr⟩ := (hspec k).mp hkstep
    obtain ⟨c, -, hc⟩ := hkt
    obtain ⟨es, hes, hrec⟩ := ih (by omega) (Option.ne_none_iff_exists'.mpr ⟨_, hc⟩) hkr
      ⟨path.nodes ++ [(view.adjacencyAt k).target], path.adjacency ++ [k]⟩
    refine ⟨k :: es, ?_, ?_⟩
    · have hout : (view.searchGraph bans).out u =
          as.filter (view.allowed bans) ++ k :: bs.filter (view.allowed bans) := by
        rw [PlanningView.searchGraph_out, hsplit, List.filter_append, List.filter_cons_of_pos hkal]
      refine .cons hout ((hspec k).mp hkstep).2.1 hkr ?_ hes
      intro a ha' htr
      obtain ⟨hamem, haal⟩ := List.mem_filter.mp ha'
      have := hfirst a hamem
      rw [(hspec a).mpr ⟨haal, htr⟩] at this
      cases this
    · rw [reconstruct, if_neg ha]
      simp only [hk]
      refine hrec.trans ?_
      simp

end Spec

/-! ## Canonical paths -/

section Canonical

variable (view : PlanningView) (bans : BanSet) (source dest hopBudget : ℕ)

/-- A simple path from `source` to `dest` that a search with bans and a hop budget ranges over: it
uses no banned entry, enters no banned node, and its exact cost is below the largest value. -/
structure IsAdmissible (path : List ℕ) : Prop where
  isWalk : view.graph.IsWalk source path
  finish : view.graph.finish source path = dest
  isSimple : view.graph.IsSimple source path
  withinHops : WithinHops hopBudget path.length
  unbanned : ∀ k ∈ path, k ∉ bans.adjacency ∧ (view.adjacencyAt k).target ∉ bans.nodes
  weight_lt : view.pathWeight path < 2 ^ 64 - 1

/-- The first of the admissible paths in the canonical order. -/
structure IsCanonicalPath (path : List ℕ) : Prop where
  admissible : IsAdmissible view bans source dest hopBudget path
  least : ∀ q, IsAdmissible view bans source dest hopBudget q → q ≠ path →
    view.pathKey source path < view.pathKey source q

/-- The outcome is the canonical path when there is an admissible one, and nothing else. -/
def FindsCanonical (outcome : SearchOutcome) : Prop :=
  (outcome.found = true ∧ ∃ path, outcome.path = view.rawPath source path ∧
    IsCanonicalPath view bans source dest hopBudget path) ∨
  (outcome.found = false ∧ ∀ path, ¬ IsAdmissible view bans source dest hopBudget path)

variable {view bans source dest hopBudget} {path q : List ℕ}

theorem IsAdmissible.isWalk_searchGraph (h : IsAdmissible view bans source dest hopBudget path) :
    (view.searchGraph bans).IsWalk source path :=
  PlanningView.isWalk_searchGraph.mpr ⟨h.isWalk, h.unbanned⟩

/-- There is at most one canonical path. -/
theorem IsCanonicalPath.unique (h : IsCanonicalPath view bans source dest hopBudget path)
    (hq : IsCanonicalPath view bans source dest hopBudget q) : path = q := by
  by_contra hne
  exact lt_asymm (h.least q hq.admissible (Ne.symm hne)) (hq.least path h.admissible hne)

/-- Canonical outcomes agree. -/
theorem FindsCanonical.agree {a b : SearchOutcome}
    (ha : FindsCanonical view bans source dest hopBudget a)
    (hb : FindsCanonical view bans source dest hopBudget b) :
    a.found = b.found ∧ (a.found = true → a.path = b.path) := by
  rcases ha with ⟨hfa, p, hpa, hp⟩ | ⟨hfa, hna⟩ <;> rcases hb with ⟨hfb, q, hqb, hq⟩ | ⟨hfb, hnb⟩
  · exact ⟨hfa.trans hfb.symm, fun _ => by rw [hpa, hqb, hp.unique hq]⟩
  · exact absurd hp.admissible (hnb p)
  · exact absurd hq.admissible (hna q)
  · refine ⟨hfa.trans hfb.symm, fun h => ?_⟩
    rw [hfa] at h
    cases h

/-- **The greedy walk of an optimum is the canonical path**, when the costs bound every admissible
path. -/
theorem isCanonicalPath_of_isGreedy (wf : view.WellFormed) {lab : ℕ → ℕ → Option ℕ}
    {cost hops bound : ℕ}
    (L : (view.searchGraph bans).IsLayering view.exactIncrement lab source dest bound
      (2 ^ 64 - 1) cost hops)
    (h : (view.searchGraph bans).IsGreedy view.exactIncrement lab dest hops 0 source path)
    (hcost : cost < 2 ^ 64 - 1) (hhops : hops ≤ bound)
    (hwithin : view.graph.IsSimple source path → WithinHops hopBudget hops)
    (hbound : ∀ q, IsAdmissible view bans source dest hopBudget q → q.length ≤ bound) :
    IsCanonicalPath view bans source dest hopBudget path := by
  have hsimple : view.graph.IsSimple source path := L.isSimple h hhops hcost
  obtain ⟨hwalk, hban⟩ := PlanningView.isWalk_searchGraph.mp h.isTightWalk.isWalk
  refine ⟨⟨hwalk, ?_, hsimple, ?_, hban, ?_⟩, fun q hq hne => ?_⟩
  · rw [← @PlanningView.searchGraph_finish view bans]
    exact h.finish_eq
  · rw [h.length_eq]
    exact hwithin hsimple
  · exact (L.weight_eq h).trans_lt hcost
  · have hsorted : (view.searchGraph bans).SortedOut view.ranking :=
      fun u => (wf.sortedOut u).filter _
    have hinj : (view.searchGraph bans).InjectiveTargets view.ranking := fun u v e f he hf =>
      wf.injectiveTargets u v e f (PlanningView.mem_searchGraph_out.mp he).1
        (PlanningView.mem_searchGraph_out.mp hf).1
    have hfinish : (view.searchGraph bans).finish source q = dest := by
      rw [PlanningView.searchGraph_finish]
      exact hq.finish
    -- the keys of the restriction are the keys of the view
    have hle : view.ranking.key (view.searchGraph bans) source path ≤
        view.ranking.key (view.searchGraph bans) source q :=
      IsLayering.key_le hsorted hinj L h hq.isWalk_searchGraph hfinish (hbound q hq) hq.weight_lt
    change view.pathKey source path ≤ view.pathKey source q at hle
    refine lt_of_le_of_ne hle fun he => hne ?_
    exact (wf.eq_of_pathKey_eq hwalk hq.isWalk he).symm

end Canonical

end PathPlanner
