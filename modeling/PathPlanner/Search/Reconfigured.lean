import PathPlanner.Search.Budget

/-!
# Views with other limits

The searches read the rows of a view, its settings and two kinds of limits: the limits on the
combinations of required transit, and the bound on the states of one search. They read neither the
other limits nor the log of rejections.

## Main definitions

* `PlanningView.reconfigured`: a view with other limits and another log
* `CarriesOver`: what a search returns is not changed by the new bound on its states

## Main results

* `shortestPath_reconfigured`, `enumerateCandidatePaths_reconfigured`: what does not change
-/

namespace PathPlanner

/-- The view with other limits and another log. -/
def PlanningView.reconfigured (view : PlanningView) (limits : ResourceLimits) (log : RejectionLog) :
    PlanningView :=
  { view with limits := limits, rejections := log }

variable {view : PlanningView} {limits : ResourceLimits} {log : RejectionLog} {hopBudget : ℕ}
  {bans : BanSet} {source dest : ℕ}

/-! ## Searches -/

@[simp] theorem nodeCount_reconfigured :
    (view.reconfigured limits log).nodeCount = view.nodeCount := rfl

@[simp] theorem plainStep_reconfigured {dist : ℕ → CostValue} {hops : ℕ → ℕ} {reach : ℕ → Bool} :
    plainStep (view.reconfigured limits log) bans dist hops reach =
      plainStep view bans dist hops reach := rfl

@[simp] theorem expandedStep_reconfigured {dist : ℕ × ℕ → CostValue} {reach : ℕ × ℕ → Bool} :
    expandedStep (view.reconfigured limits log) bans dist reach =
      expandedStep view bans dist reach := rfl

theorem reconstruct_reconfigured {arrived : ℕ → ℕ → Bool} {step : ℕ → ℕ → ℕ → Bool}
    {fuel hops current : ℕ} {path : RawPath} :
    reconstruct (view.reconfigured limits log) arrived step fuel hops current path =
      reconstruct view arrived step fuel hops current path := by
  induction fuel generalizing hops current path with
  | zero =>
    rw [reconstruct, reconstruct]
  | succ fuel ih =>
    rw [reconstruct, reconstruct]
    simp only [ih]
    rfl

theorem plainLoop_reconfigured (fuel : ℕ) :
    plainLoop (view.reconfigured limits log) hopBudget bans fuel =
      plainLoop view hopBudget bans fuel := by
  induction fuel with
  | zero => rfl
  | succ fuel ih =>
    funext st
    rw [plainLoop, plainLoop, ih]
    rfl

theorem plainCanReach_reconfigured {dist : ℕ → CostValue} {hops : ℕ → ℕ} (levels : ℕ) :
    plainCanReach (view.reconfigured limits log) bans dist hops dest levels =
      plainCanReach view bans dist hops dest levels := by
  induction levels with
  | zero => rfl
  | succ levels ih =>
    funext node
    rw [plainCanReach, plainCanReach, ih]
    rfl

theorem plainSearch_reconfigured {work : Work} :
    plainSearch (view.reconfigured limits log) hopBudget bans source dest work =
      plainSearch view hopBudget bans source dest work := by
  have hfinish (st : PlainState) :
      plainReconstruct (view.reconfigured limits log) bans source dest st =
        plainReconstruct view bans source dest st := by
    unfold plainReconstruct
    simp only [plainCanReach_reconfigured, plainStep_reconfigured, reconstruct_reconfigured]
  unfold plainSearch
  simp only [plainLoop_reconfigured, hfinish]

theorem expandedLoop_reconfigured (fuel : ℕ) :
    expandedLoop (view.reconfigured limits log) hopBudget bans fuel =
      expandedLoop view hopBudget bans fuel := by
  induction fuel with
  | zero => rfl
  | succ fuel ih =>
    funext st
    rw [expandedLoop, expandedLoop, ih]
    rfl

theorem expandedCanReach_reconfigured {dist : ℕ × ℕ → CostValue} {bestHops : ℕ} (levels : ℕ) :
    expandedCanReach (view.reconfigured limits log) bans dist dest bestHops levels =
      expandedCanReach view bans dist dest bestHops levels := by
  induction levels with
  | zero => rfl
  | succ levels ih =>
    funext state
    rw [expandedCanReach, expandedCanReach, ih]
    rfl

variable (view limits) in
/-- The new bound on the states of a search is the old one, or a larger one where the search was
`unlimited`. -/
def CarriesOver (unlimited : Prop) : Prop :=
  limits.maxSearchStates = view.limits.maxSearchStates ∨
    view.limits.maxSearchStates ≤ limits.maxSearchStates ∧ unlimited

theorem CarriesOver.imp {p q : Prop} (h : CarriesOver view limits p) (hpq : p → q) :
    CarriesOver view limits q :=
  Or.imp_right (And.imp_right hpq) h

theorem expandedSearch_reconfigured {work : Work} (h : CarriesOver view limits
      ((expandedSearch view hopBudget bans source dest work).1.resourceLimit = false)) :
    expandedSearch (view.reconfigured limits log) hopBudget bans source dest work =
      expandedSearch view hopBudget bans source dest work := by
  have hfinish (st : ExpandedState) :
      expandedReconstruct (view.reconfigured limits log) hopBudget bans source dest st =
        expandedReconstruct view hopBudget bans source dest st := by
    unfold expandedReconstruct
    simp only [expandedCanReach_reconfigured, expandedStep_reconfigured, reconstruct_reconfigured]
  have hbound : (hopBudget + 1) * view.nodeCount > limits.maxSearchStates.toNat ↔
      (hopBudget + 1) * view.nodeCount > view.limits.maxSearchStates.toNat := by
    rcases h with heq | ⟨hle, hunlimited⟩
    · rw [heq]
    · have hnot : ¬ (hopBudget + 1) * view.nodeCount > view.limits.maxSearchStates.toNat := by
        intro hmany
        rw [expandedSearch, if_pos hmany] at hunlimited
        cases hunlimited
      have hle' : view.limits.maxSearchStates.toNat ≤ limits.maxSearchStates.toNat := hle
      exact iff_of_false (by omega) hnot
  unfold expandedSearch
  simp only [expandedLoop_reconfigured, hfinish]
  change (if (hopBudget + 1) * view.nodeCount > limits.maxSearchStates.toNat then _ else _) = _
  simp only [hbound]

/-- The choice of `ShortestPath` between its searches. -/
def chooseSearch (nodeCount hopBudget source dest : ℕ) (work : Work)
    (unbounded expanded plain : SearchOutcome × Work) : SearchOutcome × Work :=
  if source = dest then ({ found := true, path := ⟨[source], []⟩ }, work)
  else if source ≥ nodeCount ∨ dest ≥ nodeCount then ({}, work)
  else if hopBudget = 0 then ({}, work)
  else if hopBudget = noHopBound then unbounded
  else if hopBudget < (if nodeCount = 0 then 0 else nodeCount - 1) then expanded
  else plain

theorem shortestPath_eq_choose {work : Work} : shortestPath view hopBudget bans source dest work =
    chooseSearch view.nodeCount hopBudget source dest work
      (plainSearch view noHopBound bans source dest work)
      (expandedSearch view hopBudget bans source dest work)
      (plainSearch view hopBudget bans source dest work) := rfl

/-- **Shortest paths** do not change. -/
theorem shortestPath_reconfigured {work : Work} (h : CarriesOver view limits
      ((shortestPath view hopBudget bans source dest work).1.resourceLimit = false)) :
    shortestPath (view.reconfigured limits log) hopBudget bans source dest work =
      shortestPath view hopBudget bans source dest work := by
  rw [shortestPath_eq_choose] at h
  rw [shortestPath_eq_choose, shortestPath_eq_choose, nodeCount_reconfigured,
    plainSearch_reconfigured, plainSearch_reconfigured]
  unfold chooseSearch at h ⊢
  generalize (if view.nodeCount = 0 then 0 else view.nodeCount - 1) = simpleBound at h ⊢
  split_ifs at h ⊢
  · rfl
  · rfl
  · rfl
  · rfl
  · exact expandedSearch_reconfigured h
  · rfl

/-! ## Required transit -/

section Transit

variable {options : EnumerationOptions} {work : Work}

theorem transitLeg_reconfigured {stage : TransitStage} {alternative : NodeId}
    {progress : TransitProgress} (h : CarriesOver view limits
      (IsUncut (transitLeg view options stage alternative progress work))) :
    transitLeg (view.reconfigured limits log) options stage alternative progress work =
      transitLeg view options stage alternative progress work := by
  unfold transitLeg at h ⊢
  rw [show (view.reconfigured limits log).viewIndex alternative = view.viewIndex alternative from rfl]
  cases hindex : view.viewIndex alternative with
  | none => rfl
  | some target =>
    rw [hindex] at h
    dsimp only at h ⊢
    by_cases hused : options.hopsUsedUp progress.usedHops = true
    · rw [if_pos hused, if_pos hused]
    · rw [if_neg hused] at h
      rw [if_neg hused, if_neg hused, shortestPath_reconfigured (h.imp fun huncut => ?_)]
      rw [← Bool.not_eq_true]
      intro hlimit
      rw [if_pos hlimit] at huncut
      exact huncut _ rfl

theorem transitLegs_reconfigured {stages : List (TransitStage × NodeId)}
    {progress : TransitProgress} (h : CarriesOver view limits
      (IsUncut (transitLegs view options stages progress work))) :
    transitLegs (view.reconfigured limits log) options stages progress work =
      transitLegs view options stages progress work := by
  induction stages generalizing progress work with
  | nil => rfl
  | cons entry stages ih =>
    obtain ⟨stage, alternative⟩ := entry
    rw [transitLegs] at h ⊢
    rw [transitLegs, transitLeg_reconfigured (h.imp fun huncut => ?_)]
    · cases hleg : transitLeg view options stage alternative progress work with
      | mk leg work' =>
        rw [hleg] at h
        cases leg with
        | reached progress' => exact ih h
        | failed code => rfl
        | exhausted detail => rfl
    · intro detail hend
      cases hleg : transitLeg view options stage alternative progress work with
      | mk leg work' =>
        rw [hleg] at hend huncut
        obtain rfl : leg = _ := hend
        exact huncut detail rfl

theorem finalLeg_reconfigured {progress : TransitProgress} (h : CarriesOver view limits
      (IsUncut (finalLeg view options progress work))) :
    finalLeg (view.reconfigured limits log) options progress work =
      finalLeg view options progress work := by
  unfold finalLeg at h ⊢
  by_cases hused : (options.hopsUsedUp progress.usedHops &&
      progress.current ≠ options.destinationView) = true
  · rw [if_pos hused, if_pos hused]
  · rw [if_neg hused] at h
    rw [if_neg hused, if_neg hused]
    dsimp only at h ⊢
    rw [shortestPath_reconfigured (h.imp fun huncut => ?_)]
    · rfl
    · rw [← Bool.not_eq_true]
      intro hlimit
      rw [if_pos hlimit] at huncut
      exact huncut _ rfl

theorem transitCombination_reconfigured {stages : List (TransitStage × NodeId)}
    (h : CarriesOver view limits (IsUncut (transitCombination view options stages work))) :
    transitCombination (view.reconfigured limits log) options stages work =
      transitCombination view options stages work := by
  unfold transitCombination at h ⊢
  rw [transitLegs_reconfigured (h.imp fun huncut => ?_)]
  · cases hlegs : transitLegs view options stages (.start options.sourceView) work with
    | mk legs work' =>
      rw [hlegs] at h
      cases legs with
      | reached progress => exact finalLeg_reconfigured h
      | failed code => rfl
      | exhausted detail => rfl
  · intro detail hend
    cases hlegs : transitLegs view options stages (.start options.sourceView) work with
    | mk legs work' =>
      rw [hlegs] at hend huncut
      obtain rfl : legs = _ := hend
      exact huncut detail rfl

theorem transitLoop_reconfigured {stages : List TransitStage} {combinations : List ℕ}
    {best : Option RankedRawPath} {legFailure : DiagnosticCode} (h : CarriesOver view limits
      (IsDecisive (transitLoop view options stages combinations best legFailure work))) :
    transitLoop (view.reconfigured limits log) options stages combinations best legFailure work =
      transitLoop view options stages combinations best legFailure work := by
  induction combinations generalizing best legFailure work with
  | nil => rfl
  | cons combination combinations ih =>
    rw [transitLoop] at h ⊢
    rw [transitLoop, transitCombination_reconfigured (h.imp fun hdecisive => ?_)]
    · cases houtcome : transitCombination view options
          (stages.zip (transitSelection stages combination).1) work with
      | mk outcome work' =>
        rw [houtcome] at h
        cases outcome with
        | reached ranked => exact ih h
        | failed code => exact ih h
        | exhausted detail => rfl
    · intro detail hend
      cases houtcome : transitCombination view options
          (stages.zip (transitSelection stages combination).1) work with
      | mk outcome work' =>
        rw [houtcome] at hend hdecisive
        obtain rfl : outcome = _ := hend
        cases hdecisive

theorem enumerateTransit_reconfigured {stages : List TransitStage}
    (hcombinations : limits.maxTransitCombinations = view.limits.maxTransitCombinations)
    (halternatives : limits.maxTransitAlternatives = view.limits.maxTransitAlternatives)
    (h : CarriesOver view limits (IsDecisive (enumerateTransit view stages options work))) :
    enumerateTransit (view.reconfigured limits log) stages options work =
      enumerateTransit view stages options work := by
  have hcount : transitCombinations limits stages = transitCombinations view.limits stages := by
    unfold transitCombinations
    have hstage : countTransitStage limits = countTransitStage view.limits := by
      funext count stage
      rw [countTransitStage, countTransitStage, hcombinations]
    rw [hstage, hcombinations, halternatives]
  unfold enumerateTransit at h ⊢
  by_cases hmany : options.maxCandidates > 1
  · rw [if_pos hmany, if_pos hmany]
  · rw [if_neg hmany] at h
    rw [if_neg hmany, if_neg hmany]
    rw [show (view.reconfigured limits log).limits = limits from rfl, hcount]
    cases hok : transitCombinations view.limits stages with
    | error result => rfl
    | ok combinations =>
      rw [hok] at h
      exact transitLoop_reconfigured h

end Transit

/-! ## Deviations -/

section Deviations

variable {options : EnumerationOptions} {work : Work}

theorem takeBest_reconfigured {pending : List RankedRawPath} :
    takeBest (view.reconfigured limits log) pending = takeBest view pending := by
  cases pending <;> rfl

theorem spurSearch_reconfigured {accepted : List RankedRawPath} {previous : RawPath}
    {state : List RankedRawPath × Work} {spurIndex : ℕ} (h : CarriesOver view limits
      (Meter.Succeeds (spurSearch view options accepted previous state spurIndex))) :
    spurSearch (view.reconfigured limits log) options accepted previous state spurIndex =
      spurSearch view options accepted previous state spurIndex := by
  unfold spurSearch at h ⊢
  cases hspur : state.2.spendSpur with
  | error work => rfl
  | ok work =>
    rw [hspur] at h
    dsimp only at h ⊢
    rw [shortestPath_reconfigured (h.imp fun hok => ?_)]
    · rfl
    · rw [← Bool.not_eq_true]
      intro hlimit
      rw [if_pos hlimit] at hok
      exact Meter.not_succeeds_error hok

theorem spurSearches_reconfigured {accepted : List RankedRawPath} {previous : RawPath}
    {indices : List ℕ} {state : List RankedRawPath × Work} (h : CarriesOver view limits
      (Meter.Succeeds (indices.foldlM (spurSearch view options accepted previous) state))) :
    indices.foldlM (spurSearch (view.reconfigured limits log) options accepted previous) state =
      indices.foldlM (spurSearch view options accepted previous) state := by
  induction indices generalizing state with
  | nil => rfl
  | cons spurIndex indices ih =>
    rw [List.foldlM_cons] at h
    rw [List.foldlM_cons, List.foldlM_cons, spurSearch_reconfigured (h.imp ?_)]
    · cases hspur : spurSearch view options accepted previous state spurIndex with
      | error ended => rfl
      | ok state' =>
        rw [hspur] at h
        exact ih h
    · intro hok
      cases hspur : spurSearch view options accepted previous state spurIndex with
      | error ended =>
        rw [hspur] at hok
        exact absurd hok Meter.not_succeeds_error
      | ok state' => exact ⟨state', rfl⟩

theorem enumerationLoop_reconfigured {wanted fuel : ℕ} {state : EnumerationState}
    (h : CarriesOver view limits
      (Meter.Succeeds (enumerationLoop view options wanted fuel state))) :
    enumerationLoop (view.reconfigured limits log) options wanted fuel state =
      enumerationLoop view options wanted fuel state := by
  induction fuel generalizing state with
  | zero => rfl
  | succ fuel ih =>
    rw [enumerationLoop] at h ⊢
    rw [enumerationLoop]
    by_cases hwanted : state.accepted.length < wanted
    · rw [if_pos hwanted] at h
      rw [if_pos hwanted, if_pos hwanted]
      cases hlast : state.accepted.getLast? with
      | none => rfl
      | some previous =>
        rw [hlast] at h
        dsimp only at h ⊢
        rw [spurSearches_reconfigured (h.imp ?_)]
        · cases hspurs : (List.range previous.path.hopCount).foldlM
              (spurSearch view options state.accepted previous.path)
                (state.pending, state.work) with
          | error ended => rfl
          | ok spurs =>
            rw [hspurs] at h
            dsimp only at h ⊢
            rw [takeBest_reconfigured]
            cases htaken : takeBest view spurs.1 with
            | none => rfl
            | some taken =>
              rw [htaken] at h
              exact ih h
        · intro hok
          split at hok
          · exact absurd hok Meter.not_succeeds_error
          · exact ⟨_, ‹_›⟩
    · rw [if_neg hwanted, if_neg hwanted]

theorem enumeratePaths_reconfigured
    (h : CarriesOver view limits (EndsDecisively (enumeratePaths view options work))) :
    enumeratePaths (view.reconfigured limits log) options work =
      enumeratePaths view options work := by
  unfold enumeratePaths at h ⊢
  dsimp only at h ⊢
  rw [shortestPath_reconfigured (h.imp fun hdecisive => ?_)]
  · by_cases hlimit : (shortestPath view options.maxHops {} options.sourceView
        options.destinationView work).1.resourceLimit = true
    · rw [if_pos hlimit, if_pos hlimit]
    rw [if_neg hlimit] at h
    rw [if_neg hlimit, if_neg hlimit]
    by_cases hfound : (!(shortestPath view options.maxHops {} options.sourceView
        options.destinationView work).1.found) = true
    · rw [if_pos hfound, if_pos hfound]
    rw [if_neg hfound] at h
    rw [if_neg hfound, if_neg hfound]
    rw [show (view.reconfigured limits log).computeRawPathCost = view.computeRawPathCost from rfl]
    cases hcost : view.computeRawPathCost (shortestPath view options.maxHops {} options.sourceView
        options.destinationView work).1.path with
    | none => rfl
    | some cost =>
      rw [hcost] at h
      dsimp only at h ⊢
      rw [enumerationLoop_reconfigured (h.imp fun hdecisive => ?_)]
      -- the loop ends early only at a limit
      split at hdecisive
      · next ended hended =>
        obtain ⟨detail, hdetail⟩ := enumerationLoop_error hended
        have hlimit := hdecisive ended rfl
        rw [IsDecisive, hdetail] at hlimit
        cases hlimit
      · exact ⟨_, ‹_›⟩
  · rw [← Bool.not_eq_true]
    intro hlimit
    rw [if_pos hlimit] at hdecisive
    exact Bool.noConfusion (hdecisive _ rfl)

/-- **The enumeration** does not change under limits that agree on required transit, as long as the
bound on the states of a search carries over. -/
theorem enumerateCandidatePaths_reconfigured {request : PlanningRequest}
    (hcombinations : limits.maxTransitCombinations = view.limits.maxTransitCombinations)
    (halternatives : limits.maxTransitAlternatives = view.limits.maxTransitAlternatives)
    (h : CarriesOver view limits
      (IsDecisive (enumerateCandidatePaths view request options work))) :
    enumerateCandidatePaths (view.reconfigured limits log) request options work =
      enumerateCandidatePaths view request options work := by
  unfold enumerateCandidatePaths at h ⊢
  by_cases htransit : (!request.constraints.requiredTransit.isEmpty) = true
  · rw [if_pos htransit] at h
    rw [if_pos htransit, if_pos htransit,
      enumerateTransit_reconfigured hcombinations halternatives h]
  · rw [if_neg htransit] at h
    rw [if_neg htransit, if_neg htransit, enumeratePaths_reconfigured (h.imp ?_)]
    · rfl
    · intro hdecisive ended hended
      rw [hended] at hdecisive
      exact hdecisive

end Deviations

end PathPlanner
