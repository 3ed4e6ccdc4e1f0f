import PathPlanner.Search.Candidates
import PathPlanner.Search.Transit

/-!
# Feasible choices of required transit

What required transit is meant to find: a choice of one alternative for each stage is feasible when
each of its legs is the least path to the next alternative that avoids the nodes of the legs before
it, within the hops that are left, and the path that the legs make up has a cost. A leg to the node
where the path already is has no hops, and needs none.

The loop over the stages refuses a leg as soon as the hops are used up, even one without a hop, and
a search does not find a leg that costs the largest value. So the planner finds the first feasible
path in the canonical order exactly when some choice leads there without such a leg.

## Main definitions

* `IsNextLeg`, `IsLeastLeg`: the legs to a node, and the first of them in the canonical order
* `IsFeasibleFrom`, `IsFeasiblePath`: the legs of a feasible choice, and its path
* `IsSearchable`: no stage begins with the hops used up, and no leg costs the largest value
* `FindsFeasible`: what the planner is meant to return

## Main results

* `isStagedFrom_iff`: the planner follows the feasible choices that are searchable
* `enumerateCandidatePaths_findsFeasible_iff`: **when the planner finds the best feasible path**
-/

namespace PathPlanner

open Multigraph

variable (view : PlanningView) (options : EnumerationOptions)

/-! ## Feasible choices -/

/-- A simple path from the end of the path so far to a node that avoids all nodes of that path,
within the hops that are left. -/
structure IsNextLeg (path : List ℕ) (target : ℕ) (leg : List ℕ) : Prop where
  isWalk : view.graph.IsWalk (view.graph.finish options.sourceView path) leg
  finish : view.graph.finish (view.graph.finish options.sourceView path) leg = target
  isSimple : view.graph.IsSimple (view.graph.finish options.sourceView path) leg
  withinHops : WithinHops (options.remainingHops path.length) leg.length
  avoids : ∀ k ∈ leg, view.graph.target k ∉ view.graph.nodes options.sourceView path

/-- The first of these paths in the canonical order. -/
structure IsLeastLeg (path : List ℕ) (target : ℕ) (leg : List ℕ) : Prop where
  isNextLeg : IsNextLeg view options path target leg
  least : ∀ other, IsNextLeg view options path target other →
    view.pathKey (view.graph.finish options.sourceView path) leg ≤
      view.pathKey (view.graph.finish options.sourceView path) other

/-- The legs of a choice, after a path: one to each alternative, and one to the destination. -/
def IsFeasibleFrom : List NodeId → List ℕ → List (List ℕ) → Prop
  | [], path, [leg] => IsLeastLeg view options path options.destinationView leg
  | alternative :: selected, path, leg :: legs =>
    ∃ target, view.viewIndex alternative = some target ∧
      IsLeastLeg view options path target leg ∧ IsFeasibleFrom selected (path ++ leg) legs
  | _, _, _ => False

/-- The path that the legs of some choice make up, when it is simple and has a cost. -/
def IsFeasiblePath (stages : List TransitStage) (total : List ℕ) : Prop :=
  ∃ selected legs, IsChoice stages selected ∧ IsFeasibleFrom view options selected [] legs ∧
    legs.flatten = total ∧ view.graph.IsSimple options.sourceView total ∧
    (view.computeRawPathCost (view.rawPath options.sourceView total)).isSome = true

/-- The first of the feasible paths in the canonical order. -/
structure IsFeasibleOptimum (stages : List TransitStage) (total : List ℕ) : Prop where
  feasible : IsFeasiblePath view options stages total
  least : ∀ other, IsFeasiblePath view options stages other →
    view.pathKey options.sourceView total ≤ view.pathKey options.sourceView other

/-- No stage begins with the hops used up, and no leg costs the largest value. -/
structure IsSearchable (stageCount : ℕ) (legs : List (List ℕ)) : Prop where
  hopsLeft : ∀ i < stageCount, options.hopsUsedUp (legs.take i).flatten.length = false
  weight_ne : ∀ leg ∈ legs, view.pathWeight leg ≠ 2 ^ 64 - 1

/-- The planner succeeds exactly when there is a feasible path, and returns the first one. -/
def FindsFeasible (stages : List TransitStage) (result : EnumerationResult) : Prop :=
  (result.ok = true ↔ ∃ total, IsFeasiblePath view options stages total) ∧
    (result.ok = true → ∃ total, IsFeasibleOptimum view options stages total ∧
      result.paths = [view.rawPath options.sourceView total])

variable {view options} {path leg total : List ℕ} {target : ℕ} {selected : List NodeId}
  {legs : List (List ℕ)} {stages : List TransitStage} {enterable : ℕ → Bool}

/-! ## Legs -/

/-- The legs that a search ranges over are those that cost less than the largest value, as long as
it may not enter another node of the path than the one where it starts. -/
theorem isAdmissible_leg_iff
    (henter : ∀ v ∈ view.graph.nodes options.sourceView path,
      enterable v = true ↔ v = view.graph.finish options.sourceView path) :
    IsAdmissible view
        { nodes := (view.graph.nodes options.sourceView path).filter fun v => !enterable v }
        (view.graph.finish options.sourceView path) target (options.remainingHops path.length) leg ↔
      IsNextLeg view options path target leg ∧ view.pathWeight leg < 2 ^ 64 - 1 := by
  constructor
  · intro h
    refine ⟨⟨h.isWalk, h.finish, h.isSimple, h.withinHops, fun k hk hmem => ?_⟩, h.weight_lt⟩
    -- a simple leg does not return to the node where it starts
    have hreturn : view.graph.target k ≠ view.graph.finish options.sourceView path := fun hsame =>
      (List.nodup_cons.mp h.isSimple).1 (hsame ▸ List.mem_map_of_mem hk)
    refine (h.unbanned k hk).2 (List.mem_filter.mpr ⟨hmem, ?_⟩)
    rw [Bool.not_eq_true', ← Bool.not_eq_true]
    exact fun hentered => hreturn ((henter _ hmem).mp hentered)
  · rintro ⟨h, hweight⟩
    refine ⟨h.isWalk, h.finish, h.isSimple, h.withinHops, fun k hk => ⟨nofun, fun hmem => ?_⟩,
      hweight⟩
    exact h.avoids k hk (List.mem_filter.mp hmem).1

/-- **A leg that a search finds** is the least one, when that costs less than the largest value. -/
theorem isLeg_iff (wf : view.WellFormed)
    (henter : ∀ v ∈ view.graph.nodes options.sourceView path,
      enterable v = true ↔ v = view.graph.finish options.sourceView path) :
    IsLeg view options path enterable target leg ↔
      IsLeastLeg view options path target leg ∧ view.pathWeight leg < 2 ^ 64 - 1 := by
  unfold IsLeg
  constructor
  · intro h
    obtain ⟨hnext, hweight⟩ := (isAdmissible_leg_iff henter).mp h.admissible
    refine ⟨⟨hnext, fun other hother => ?_⟩, hweight⟩
    by_cases hcheap : view.pathWeight other < 2 ^ 64 - 1
    · by_cases hsame : other = leg
      · rw [hsame]
      · exact (h.least other ((isAdmissible_leg_iff henter).mpr ⟨hother, hcheap⟩) hsame).le
    · refine le_of_not_gt fun hlt => hcheap ?_
      exact (PlanningView.pathWeight_le_of_key_le hlt.le).trans_lt hweight
  · rintro ⟨h, hweight⟩
    refine ⟨(isAdmissible_leg_iff henter).mpr ⟨h.isNextLeg, hweight⟩, fun other hother hne => ?_⟩
    obtain ⟨hnext, -⟩ := (isAdmissible_leg_iff henter).mp hother
    refine (h.least other hnext).lt_of_ne fun heq => hne ?_
    exact (wf.eq_of_pathKey_eq h.isNextLeg.isWalk hnext.isWalk heq).symm

/-- A leg within no hops stays where it is. -/
theorem IsNextLeg.target_eq_of_hopsUsedUp (h : IsNextLeg view options path target leg)
    (hused : options.hopsUsedUp path.length = true) :
    view.graph.finish options.sourceView path = target := by
  unfold EnumerationOptions.hopsUsedUp at hused
  rw [Bool.and_eq_true, decide_eq_true_iff, decide_eq_true_iff] at hused
  have hhops := h.withinHops
  have hmax := options.maxHops_le
  unfold EnumerationOptions.remainingHops WithinHops at hhops
  rw [if_neg hused.1] at hhops
  have hnil : leg = [] := by
    refine List.length_eq_zero_iff.mp ?_
    unfold noHopBound at *
    omega
  rw [← h.finish, hnil]
  rfl

/-- Where the path goes on to the destination without a repeated node, it is there already or has
not been there. -/
theorem destination_of_isSimple
    (h : view.graph.IsSimple options.sourceView (path ++ leg))
    (hfinish : view.graph.finish (view.graph.finish options.sourceView path) leg = target) :
    target = view.graph.finish options.sourceView path ∨
      target ∉ view.graph.nodes options.sourceView path := by
  obtain ⟨-, -, havoids⟩ := isSimple_append.mp h
  have hnodes : target ∈ view.graph.nodes (view.graph.finish options.sourceView path) leg :=
    hfinish ▸ finish_mem_nodes
  rcases List.mem_cons.mp hnodes with hsame | htarget
  · exact Or.inl hsame
  · obtain ⟨k, hk, rfl⟩ := List.mem_map.mp htarget
    by_cases hcurrent : view.graph.target k = view.graph.finish options.sourceView path
    · exact Or.inl hcurrent
    · refine Or.inr fun hmem => havoids k hk ?_
      rw [nodes_eq_dropLast_append, List.mem_append, List.mem_singleton] at hmem
      exact hmem.resolve_right hcurrent

/-- The searches of the last leg may enter the destination, which is a node of the path only when
the leg has nowhere to go. -/
theorem enterable_destination_iff
    (h : options.destinationView = view.graph.finish options.sourceView path ∨
      options.destinationView ∉ view.graph.nodes options.sourceView path) :
    ∀ v ∈ view.graph.nodes options.sourceView path,
      (v = view.graph.finish options.sourceView path || v = options.destinationView) = true ↔
        v = view.graph.finish options.sourceView path := by
  intro v hv
  rw [Bool.or_eq_true, decide_eq_true_iff, decide_eq_true_iff]
  refine ⟨fun hcases => ?_, Or.inl⟩
  rcases hcases with hcurrent | hdestination
  · exact hcurrent
  · rcases h with hsame | hnot
    · exact hdestination.trans hsame
    · exact absurd (hdestination ▸ hv) hnot

/-! ## Choices -/

/-- **A leg to where the path is** has no hops. -/
theorem isLeastLeg_nil (h : view.graph.finish options.sourceView path = target) :
    IsLeastLeg view options path target [] where
  isNextLeg := ⟨trivial, h, isSimple_nil, Or.inr (Nat.zero_le _), nofun⟩
  least other _ := by
    refine le_of_not_gt fun hlt => ?_
    rcases Multigraph.Ranking.key_lt_iff.mp hlt with hweight | ⟨-, hlength | ⟨hlength, hrest⟩⟩
    · exact absurd hweight (Nat.not_lt_zero _)
    · exact absurd hlength (Nat.not_lt_zero _)
    · -- no other path has no hops
      rw [List.length_eq_zero_iff.mp hlength] at hrest
      rcases hrest with hnodes | ⟨-, hedges⟩
      · exact lt_irrefl _ hnodes
      · exact lt_irrefl _ hedges

/-- The legs of a choice make up a walk from the source to the destination. -/
theorem IsFeasibleFrom.isWalk (h : IsFeasibleFrom view options selected path legs)
    (hwalk : view.graph.IsWalk options.sourceView path) :
    view.graph.IsWalk options.sourceView (path ++ legs.flatten) ∧
      view.graph.finish options.sourceView (path ++ legs.flatten) = options.destinationView := by
  induction selected generalizing path legs with
  | nil =>
    match legs, h with
    | [leg], h =>
      rw [List.flatten_singleton, isWalk_append, finish_append]
      exact ⟨⟨hwalk, h.isNextLeg.isWalk⟩, h.isNextLeg.finish⟩
  | cons alternative selected ih =>
    match legs, h with
    | leg :: legs, ⟨target, _, hleg, hrest⟩ =>
      rw [List.flatten_cons, ← List.append_assoc]
      exact ih hrest (isWalk_append.mpr ⟨hwalk, hleg.isNextLeg.isWalk⟩)

/-- **The planner follows** a choice as long as hops are left at each stage and no leg costs the
largest value. -/
theorem isStagedFrom_iff (wf : view.WellFormed) :
    IsStagedFrom view options selected path total ↔
      ∃ legs, IsFeasibleFrom view options selected path legs ∧
        (∀ i < selected.length,
          options.hopsUsedUp (path ++ (legs.take i).flatten).length = false) ∧
        (∀ leg ∈ legs, view.pathWeight leg < 2 ^ 64 - 1) ∧ path ++ legs.flatten = total ∧
        view.graph.IsSimple options.sourceView total ∧ total.length ≤ maxHopCount ∧
        view.pathWeight total < 2 ^ 64 := by
  induction selected generalizing path with
  | nil =>
    constructor
    · rintro ⟨-, leg, hleg, rfl, hsimple, hlength, hweight⟩
      have hplace := destination_of_isSimple hsimple hleg.admissible.finish
      obtain ⟨hleast, hcheap⟩ := (isLeg_iff wf (enterable_destination_iff hplace)).mp hleg
      exact ⟨[leg], hleast, nofun, List.forall_mem_singleton.mpr hcheap, by simp, hsimple, hlength,
        hweight⟩
    · rintro ⟨legs, hlegs, -, hcheap, rfl, hsimple, hlength, hweight⟩
      match legs, hlegs with
      | [leg], hleast =>
        rw [List.flatten_singleton] at hsimple hlength hweight ⊢
        have hplace := destination_of_isSimple hsimple hleast.isNextLeg.finish
        refine ⟨?_, leg, (isLeg_iff wf (enterable_destination_iff hplace)).mpr
          ⟨hleast, hcheap leg (List.mem_singleton_self leg)⟩, rfl, hsimple, hlength, hweight⟩
        -- with the hops used up the path is at the destination
        rw [Bool.and_eq_false_imp, decide_eq_false_iff_not, not_not]
        exact hleast.isNextLeg.target_eq_of_hopsUsedUp
  | cons alternative selected ih =>
    have henter : ∀ v ∈ view.graph.nodes options.sourceView path,
        decide (v = view.graph.finish options.sourceView path) = true ↔
          v = view.graph.finish options.sourceView path := fun v _ => decide_eq_true_iff
    constructor
    · rintro ⟨hused, target, leg, htarget, hleg, hrest⟩
      obtain ⟨hleast, hcheap⟩ := (isLeg_iff wf henter).mp hleg
      obtain ⟨legs, hlegs, hhops, hweights, htotal, hend⟩ := ih.mp hrest
      refine ⟨leg :: legs, ⟨target, htarget, hleast, hlegs⟩, ?_,
        List.forall_mem_cons.mpr ⟨hcheap, hweights⟩, ?_, hend⟩
      · intro i hi
        cases i with
        | zero => simpa using hused
        | succ i =>
          rw [List.take_succ_cons, List.flatten_cons, ← List.append_assoc]
          exact hhops i (Nat.lt_of_succ_lt_succ hi)
      · rw [List.flatten_cons, ← List.append_assoc, htotal]
    · rintro ⟨legs, hlegs, hhops, hweights, rfl, hend⟩
      match legs, hlegs with
      | leg :: legs, ⟨target, htarget, hleast, hrest⟩ =>
        obtain ⟨hcheap, hweights⟩ := List.forall_mem_cons.mp hweights
        refine ⟨by simpa using hhops 0 (Nat.succ_pos _), target, leg, htarget,
          (isLeg_iff wf henter).mpr ⟨hleast, hcheap⟩, ih.mpr ⟨legs, hrest, ?_, hweights, ?_, hend⟩⟩
        · intro i hi
          have hnext := hhops (i + 1) (Nat.succ_lt_succ hi)
          rwa [List.take_succ_cons, List.flatten_cons, ← List.append_assoc] at hnext
        · rw [List.flatten_cons, ← List.append_assoc]

/-! ## Feasible paths -/

/-- A part of a path costs no more than the whole. -/
theorem pathWeight_le_flatten (h : leg ∈ legs) :
    view.pathWeight leg ≤ view.pathWeight legs.flatten :=
  weight_le_of_sublist (List.sublist_flatten_of_mem h)

/-- **The staged paths** are the paths of the feasible choices that can be searched. -/
theorem isStagedPath_iff (wf : view.WellFormed) (coh : view.CostCoherent) :
    IsStagedPath view options stages total ↔
      IsFeasiblePath view options stages total ∧
        ∃ selected legs, IsChoice stages selected ∧ IsFeasibleFrom view options selected [] legs ∧
          legs.flatten = total ∧ IsSearchable view options stages.length legs := by
  have hcost {selected : List NodeId} {legs : List (List ℕ)}
      (h : IsFeasibleFrom view options selected [] legs) :
      (view.computeRawPathCost (view.rawPath options.sourceView legs.flatten)).isSome = true ↔
        legs.flatten.length ≤ maxHopCount ∧ view.pathWeight legs.flatten < 2 ^ 64 :=
    PlanningView.computeRawPathCost_isSome_iff wf coh (h.isWalk trivial).1
  constructor
  · rintro ⟨selected, hchoice, hstaged⟩
    obtain ⟨legs, hlegs, hhops, hweights, htotal, hsimple, hlength, hweight⟩ :=
      (isStagedFrom_iff wf).mp hstaged
    rw [List.nil_append] at htotal
    subst htotal
    refine ⟨⟨selected, legs, hchoice, hlegs, rfl, hsimple, (hcost hlegs).mpr ⟨hlength, hweight⟩⟩,
      selected, legs, hchoice, hlegs, rfl, ?_, fun leg hleg => (hweights leg hleg).ne⟩
    rw [hchoice.length_eq]
    exact hhops
  · rintro ⟨⟨-, -, -, -, -, hsimple, hsome⟩, selected, legs, hchoice, hlegs, rfl, hsearch⟩
    obtain ⟨hlength, hweight⟩ := (hcost hlegs).mp hsome
    refine ⟨selected, hchoice, (isStagedFrom_iff wf).mpr
      ⟨legs, hlegs, ?_, fun leg hleg => ?_, rfl, hsimple, hlength, hweight⟩⟩
    · rw [← hchoice.length_eq]
      exact hsearch.hopsLeft
    · have hle := (pathWeight_le_flatten hleg).trans_lt hweight
      exact lt_of_le_of_ne (Nat.le_sub_one_of_lt hle) (hsearch.weight_ne leg hleg)

theorem IsFeasiblePath.isWalk (h : IsFeasiblePath view options stages total) :
    view.graph.IsWalk options.sourceView total := by
  obtain ⟨selected, legs, -, hlegs, rfl, -⟩ := h
  exact (hlegs.isWalk trivial).1

/-- Two feasible optima are the same path. -/
theorem IsFeasibleOptimum.unique (wf : view.WellFormed) {other : List ℕ}
    (h : IsFeasibleOptimum view options stages total)
    (h' : IsFeasibleOptimum view options stages other) : total = other :=
  wf.eq_of_pathKey_eq h.feasible.isWalk h'.feasible.isWalk
    (le_antisymm (h.least other h'.feasible) (h'.least total h.feasible))

/-- **Where there is a feasible path**, one of them is the first in the canonical order. -/
theorem exists_isFeasibleOptimum (wf : view.WellFormed)
    (hsource : options.sourceView < view.nodeCount)
    (h : IsFeasiblePath view options stages total) :
    ∃ optimum, IsFeasibleOptimum view options stages optimum := by
  have hfinite : {t | IsFeasiblePath view options stages t}.Finite := by
    refine (finite_setOf_isWalk (G := view.graph) options.sourceView view.nodeCount).subset ?_
    intro t ht
    obtain ⟨-, -, -, -, -, hsimple, -⟩ := id ht
    exact ⟨ht.isWalk, (wf.length_lt_of_isSimple hsource ht.isWalk hsimple).le⟩
  obtain ⟨optimum, hoptimum, hleast⟩ :=
    hfinite.exists_minimalFor (view.pathKey options.sourceView) _ ⟨total, h⟩
  refine ⟨optimum, hoptimum, fun other hother => ?_⟩
  exact (le_total _ _).elim id fun hle => hleast hother hle

/-- **Required transit** finds the first feasible path exactly when some choice leads there of which
no stage begins with the hops used up and no leg costs the largest value. -/
theorem enumerateCandidatePaths_findsFeasible_iff {request : PlanningRequest} {work : Work}
    (wf : view.WellFormed) (coh : view.CostCoherent)
    (hsource : options.sourceView < view.nodeCount)
    (htransit : request.constraints.requiredTransit ≠ []) (hone : options.maxCandidates ≤ 1)
    (hlimit : (enumerateCandidatePaths view request options work).1.resourceLimit = false) :
    FindsFeasible view options request.constraints.requiredTransit
        (enumerateCandidatePaths view request options work).1 ↔
      ∀ total, IsFeasibleOptimum view options request.constraints.requiredTransit total →
        ∃ selected legs, IsChoice request.constraints.requiredTransit selected ∧
          IsFeasibleFrom view options selected [] legs ∧ legs.flatten = total ∧
          IsSearchable view options request.constraints.requiredTransit.length legs := by
  have hbranch : enumerateCandidatePaths view request options work =
      enumerateTransit view request.constraints.requiredTransit options work := by
    rw [enumerateCandidatePaths, List.isEmpty_eq_false_iff.mpr htransit]
    rfl
  rw [hbranch] at hlimit ⊢
  generalize request.constraints.requiredTransit = stages at *
  rcases enumerateTransit_decides wf coh hsource hone hlimit with
    ⟨hok, found, hpaths, hfound⟩ | ⟨hok, hpaths, hnone⟩
  · -- a staged optimum is returned: it is the feasible one when that is staged
    obtain ⟨hfeasible, hsearch⟩ := (isStagedPath_iff wf coh).mp hfound.staged
    constructor
    · rintro ⟨-, hreturns⟩ total htotal
      obtain ⟨optimum, hoptimum, heq⟩ := hreturns hok
      have hsame : found = optimum :=
        rawPath_injective _ (List.singleton_injective (hpaths.symm.trans heq))
      rw [htotal.unique wf hoptimum, ← hsame]
      exact hsearch
    · intro h
      refine ⟨iff_of_true hok ⟨found, hfeasible⟩, fun _ => ⟨found, ?_, hpaths⟩⟩
      obtain ⟨optimum, hoptimum⟩ := exists_isFeasibleOptimum wf hsource hfeasible
      have hstaged := (isStagedPath_iff wf coh).mpr ⟨hoptimum.feasible, h optimum hoptimum⟩
      have hle := hfound.least optimum hstaged
      refine ⟨hfeasible, fun other hother => hle.trans (hoptimum.least other hother)⟩
  · -- nothing is returned: then nothing may be feasible
    constructor
    · rintro ⟨hsucceeds, -⟩ total htotal
      rw [hok] at hsucceeds
      exact absurd (hsucceeds.mpr ⟨total, htotal.feasible⟩) Bool.false_ne_true
    · intro h
      have hno : ¬ ∃ total, IsFeasiblePath view options stages total := by
        rintro ⟨total, htotal⟩
        obtain ⟨optimum, hoptimum⟩ := exists_isFeasibleOptimum wf hsource htotal
        exact hnone optimum ((isStagedPath_iff wf coh).mpr ⟨hoptimum.feasible, h optimum hoptimum⟩)
      rw [FindsFeasible, hok]
      exact ⟨iff_of_false Bool.false_ne_true hno, fun h => absurd h Bool.false_ne_true⟩

/-! ### A stage that repeats the one before it -/

/-- **A stage that repeats** the one before it is visited without a hop, so what was feasible stays
feasible. -/
theorem IsFeasiblePath.repeat_stage {stage : TransitStage}
    (h : IsFeasiblePath view options (stage :: stages) total) :
    IsFeasiblePath view options (stage :: stage :: stages) total := by
  obtain ⟨selected, legs, hchoice, hlegs, rfl, hend⟩ := h
  cases hchoice with
  | @cons _ alternative _ selected hmem hrest =>
    match legs, hlegs with
    | leg :: legs, ⟨target, htarget, hleg, hfrom⟩ =>
      have hstay : view.graph.finish options.sourceView ([] ++ leg) = target :=
        hleg.isNextLeg.finish
      refine ⟨alternative :: alternative :: selected, leg :: [] :: legs,
        List.Forall₂.cons hmem (List.Forall₂.cons hmem hrest), ?_, rfl, hend⟩
      refine ⟨target, htarget, hleg, target, htarget, isLeastLeg_nil hstay, ?_⟩
      rwa [List.append_nil]

/-- Options to find one path of two hops at most from the first node to the last. -/
def twoHops : EnumerationOptions where
  sourceView := 0
  destinationView := 2
  maxCandidates := 1
  enumerationCeiling := 1
  maxHops := 2

/-- A request that has to visit the last node a number of times. -/
def throughLast (visits : ℕ) : PlanningRequest :=
  { PlanningRequest.between 1 3 with
    constraints :=
      { id := .tagged 0 1
        requiredTransit := List.replicate visits { alternatives := [.tagged 0 3] } } }

/-- What is returned for it over the doubled links. -/
def throughLastResult (visits : ℕ) : EnumerationResult :=
  (enumerateCandidatePaths doubledView.view (throughLast visits) twoHops smallBudget).1

/-- Every hop costs one. -/
theorem pathWeight_doubledView (path : List ℕ) : doubledView.view.pathWeight path = path.length := by
  have hentries : ∀ entry ∈ doubledView.view.adjacency, entry.traversalCost.value = 0 := by
    decide +kernel
  have hhop : doubledView.view.costModel.hopCost.value = 1 := by decide +kernel
  have hincrement : ∀ k, doubledView.view.exactIncrement k = 1 := by
    intro k
    unfold PlanningView.exactIncrement PlanningView.adjacencyAt
    rw [hhop, List.getD_eq_getElem?_getD]
    cases hk : doubledView.view.adjacency[k]? with
    | none => rfl
    | some entry =>
      rw [Option.getD_some, hentries entry (List.mem_of_getElem? hk)]
  induction path with
  | nil => rfl
  | cons k path ih =>
    unfold PlanningView.pathWeight at ih ⊢
    rw [weight_cons, ih, hincrement, List.length_cons, Nat.add_comm]

/-- One visit is found. -/
theorem enumerateCandidatePaths_findsFeasible_iff_throughLast :
    (throughLastResult 1).ok = true ∧
      FindsFeasible doubledView.view twoHops (throughLast 1).constraints.requiredTransit
        (throughLastResult 1) := by
  have hfree : (enumerateCandidatePaths doubledView.view (throughLast 1) twoHops
      smallBudget).1.resourceLimit = false := by decide +kernel
  have hsource : twoHops.sourceView < doubledView.view.nodeCount := by decide +kernel
  have htransit : (throughLast 1).constraints.requiredTransit ≠ [] := List.cons_ne_nil _ _
  refine ⟨by decide +kernel, (enumerateCandidatePaths_findsFeasible_iff doubledView_spec.1
    doubledView_spec.2 hsource htransit le_rfl hfree).mpr fun total htotal => ?_⟩
  have hwalk := htotal.feasible.isWalk
  obtain ⟨selected, legs, hchoice, hlegs, rfl, hsimple, -⟩ := htotal.feasible
  refine ⟨selected, legs, hchoice, hlegs, rfl, ?_, fun leg hleg => ?_⟩
  · -- the only stage begins at the source
    intro i hi
    obtain rfl := Nat.lt_one_iff.mp hi
    rw [List.take_zero]
    decide
  · -- a simple path has fewer hops than there are nodes
    have hlength := doubledView_spec.1.length_lt_of_isSimple hsource hwalk hsimple
    have hcount : doubledView.view.nodeCount = 3 := by decide +kernel
    have hle : doubledView.view.pathWeight leg ≤ doubledView.view.pathWeight legs.flatten :=
      pathWeight_le_flatten hleg
    rw [pathWeight_doubledView legs.flatten] at hle
    omega

/-- Two hops lead through the last node once, and a second visit needs no hop, but with the hops
used up the second stage is refused. -/
theorem not_findsFeasible_throughLast :
    (throughLastResult 2).resourceLimit = false ∧
      ¬ FindsFeasible doubledView.view twoHops (throughLast 2).constraints.requiredTransit
        (throughLastResult 2) := by
  refine ⟨by decide +kernel, ?_⟩
  rintro ⟨hsucceeds, -⟩
  have hrefused : (throughLastResult 2).ok = false := by decide +kernel
  -- one visit is staged, so it is feasible
  have hfree : (enumerateTransit doubledView.view (throughLast 1).constraints.requiredTransit
      twoHops smallBudget).1.resourceLimit = false := by decide +kernel
  rcases enumerateTransit_decides doubledView_spec.1 doubledView_spec.2
    (show twoHops.sourceView < doubledView.view.nodeCount by decide +kernel) le_rfl hfree with
    ⟨-, total, -, hfound⟩ | ⟨hfails, -⟩
  · obtain ⟨honce, -⟩ := (isStagedPath_iff doubledView_spec.1 doubledView_spec.2).mp hfound.staged
    rw [hrefused] at hsucceeds
    exact Bool.false_ne_true (hsucceeds.mpr ⟨total, honce.repeat_stage⟩)
  · have hfinds : (enumerateTransit doubledView.view (throughLast 1).constraints.requiredTransit
        twoHops smallBudget).1.ok = true := by decide +kernel
    exact Bool.false_ne_true (hfails.symm.trans hfinds)

end PathPlanner
