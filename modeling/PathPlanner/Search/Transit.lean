import PathPlanner.Search.RawPath
import PathPlanner.Search.Shortest

/-!
# Required transit

Stages of required transit are visited in order. For one choice of an alternative in every stage the
path is built leg by leg, each leg a shortest path that avoids the nodes of the earlier legs; the
canonically first path over all choices is the result.

## Main definitions

* `EnumerationOptions`, `EnumerationResult`: what an enumeration is asked and what it returns
* `transitCombinations`, `transitSelection`: the choices of alternatives, numbered
* `transitLeg`, `transitLegs`, `finalLeg`: the legs of one choice
* `enumerateTransit`: the loop over the choices
* `IsStagedPath`, `IsStagedOptimum`: the paths of the choices, and the first of them

## Main results

* `enumerateTransit_spec`: the path returned is the staged optimum
-/

namespace PathPlanner

open Multigraph

/-- `EnumerationOptions`. The hop bound is a 32-bit value. -/
structure EnumerationOptions where
  sourceView : ℕ
  destinationView : ℕ
  maxCandidates : ℕ := 1
  enumerationCeiling : ℕ := 1
  maxHops : ℕ := 0
  domainMemberLimitActive : Bool := false
  maxHops_le : maxHops ≤ noHopBound := by decide

/-- No bound on the hops is within the range of the bounds. -/
theorem noHopBound_le_noHopBound : noHopBound ≤ noHopBound := le_rfl

/-- `EnumerationResult`. -/
structure EnumerationResult where
  ok : Bool := false
  failure : DiagnosticCode := .noStructuralPath
  resourceLimit : Bool := false
  truncated : Bool := false
  paths : List RawPath := []
  detail : String := ""

/-- The hops that are left of the bound. -/
def EnumerationOptions.remainingHops (options : EnumerationOptions) (usedHops : ℕ) : ℕ :=
  if options.maxHops = noHopBound then noHopBound else options.maxHops - usedHops

/-- Whether a bound is given and used up. -/
def EnumerationOptions.hopsUsedUp (options : EnumerationOptions) (usedHops : ℕ) : Bool :=
  options.maxHops ≠ noHopBound && usedHops ≥ options.maxHops

/-! ## Choices -/

/-- A result that reports a limit on required transit. -/
def transitLimitExceeded (detail : String) : EnumerationResult where
  resourceLimit := true
  failure := .constraintCountExceeded
  detail := detail

/-- The loop that counts combinations and alternatives. -/
def countTransitStage (limits : ResourceLimits) (count : ℕ × ℕ) (stage : TransitStage) :
    Except EnumerationResult (ℕ × ℕ) :=
  let size := stage.alternatives.length
  if stage.alternatives.isEmpty then
    .error { failure := .malformedIdentifier, detail := "transit stage has no alternatives" }
  else if count.1 > limits.maxTransitCombinations.toNat / size then
    .error (transitLimitExceeded
      "required transit expands beyond the configured combination limit")
  else .ok (count.1 * size, count.2 + size)

/-- The number of combinations, within the limits. -/
def transitCombinations (limits : ResourceLimits) (stages : List TransitStage) :
    Except EnumerationResult ℕ := do
  let (combinations, alternatives) ← stages.foldlM (countTransitStage limits) (1, 0)
  if alternatives > limits.maxTransitAlternatives.toNat then
    .error (transitLimitExceeded
      "required transit alternative count exceeds the configured limit")
  else if combinations > limits.maxTransitCombinations.toNat then
    .error (transitLimitExceeded
      "required transit combination count exceeds the configured limit")
  else .ok combinations

/-- The alternatives that a combination selects, and what remains of its number: the last stage is
the least significant digit. -/
def transitSelection : List TransitStage → ℕ → List NodeId × ℕ
  | [], combination => ([], combination)
  | stage :: stages, combination =>
    let (selected, remainder) := transitSelection stages combination
    let size := stage.alternatives.length
    (stage.alternatives.getD (remainder % size) default :: selected, remainder / size)

/-! ## Legs -/

/-- The path built so far: `combined`, `current` and `used_hops`. -/
structure TransitProgress where
  combined : RawPath
  current : ℕ
  usedHops : ℕ

/-- The path before the first leg. -/
def TransitProgress.start (source : ℕ) : TransitProgress := ⟨⟨[source], []⟩, source, 0⟩

/-- A leg is appended without its first node. -/
def TransitProgress.extend (progress : TransitProgress) (leg : RawPath) (target : ℕ) :
    TransitProgress where
  combined := ⟨progress.combined.nodes ++ leg.nodes.drop 1,
    progress.combined.adjacency ++ leg.adjacency⟩
  current := target
  usedHops := progress.usedHops + leg.hopCount

/-- The nodes of the path that the next leg may not enter. -/
def TransitProgress.bans (progress : TransitProgress) (enterable : ℕ → Bool) : BanSet :=
  progress.combined.nodes.foldl
    (fun bans node => if enterable node then bans else bans.addNode node) {}

/-- How a leg or a combination of legs ends. -/
inductive LegOutcome (α : Type)
  | reached (value : α)
  | failed (legFailure : Option DiagnosticCode)
  | exhausted (detail : String)

/-- One leg: the body of the loop over the stages. -/
def transitLeg (view : PlanningView) (options : EnumerationOptions) (stage : TransitStage)
    (alternative : NodeId) (progress : TransitProgress) (work : Work) :
    LegOutcome TransitProgress × Work :=
  match view.viewIndex alternative with
  | none => (.failed (some .requiredNodeMissing), work)
  | some target =>
    if options.hopsUsedUp progress.usedHops then (.failed (some .maxHopsExceeded), work)
    else
      let bans := progress.bans fun node => node = progress.current
      let (leg, work) := shortestPath view (options.remainingHops progress.usedHops) bans
        progress.current target work
      if leg.resourceLimit then
        (.exhausted "work budget exhausted during a required transit leg", work)
      else if !leg.found then
        (.failed (some (if stage.kind = .exact then .requiredNodeMissing
          else .requiredAnySetUnsatisfied)), work)
      else (.reached (progress.extend leg.path target), work)

/-- The loop over the stages, each with the alternative selected for it. -/
def transitLegs (view : PlanningView) (options : EnumerationOptions) :
    List (TransitStage × NodeId) → TransitProgress → Work → LegOutcome TransitProgress × Work
  | [], progress, work => (.reached progress, work)
  | (stage, alternative) :: stages, progress, work =>
    match transitLeg view options stage alternative progress work with
    | (.reached progress, work) => transitLegs view options stages progress work
    | ended => ended

/-- The leg to the destination, and the cost of the whole path. -/
def finalLeg (view : PlanningView) (options : EnumerationOptions) (progress : TransitProgress)
    (work : Work) : LegOutcome RankedRawPath × Work :=
  if options.hopsUsedUp progress.usedHops && progress.current ≠ options.destinationView then
    (.failed (some .maxHopsExceeded), work)
  else
    let bans := progress.bans fun node =>
      node = progress.current || node = options.destinationView
    let (leg, work) := shortestPath view (options.remainingHops progress.usedHops) bans
      progress.current options.destinationView work
    if leg.resourceLimit then
      (.exhausted "work budget exhausted during the final transit leg", work)
    else if !leg.found then (.failed (some .maxHopsExceeded), work)
    else
      let combined := (progress.extend leg.path options.destinationView).combined
      if !rawPathIsSimple combined then (.failed none, work)
      else
        match view.computeRawPathCost combined with
        | none => (.failed (some .costOverflow), work)
        | some cost => (.reached ⟨combined, cost⟩, work)

/-- One combination: the legs to the selected alternatives, and the final leg. -/
def transitCombination (view : PlanningView) (options : EnumerationOptions)
    (stages : List (TransitStage × NodeId)) (work : Work) : LegOutcome RankedRawPath × Work :=
  match transitLegs view options stages (.start options.sourceView) work with
  | (.reached progress, work) => finalLeg view options progress work
  | (.failed legFailure, work) => (.failed legFailure, work)
  | (.exhausted detail, work) => (.exhausted detail, work)

/-! ## The loop over the combinations -/

/-- The better of a path and the best one so far. -/
def betterRanked (view : PlanningView) (ranked : RankedRawPath) :
    Option RankedRawPath → RankedRawPath
  | none => ranked
  | some best => if rankedBefore view ranked best then ranked else best

/-- The result of required transit, from the best path and the last failure. -/
def transitResult (best : Option RankedRawPath) (legFailure : DiagnosticCode) : EnumerationResult :=
  match best with
  | none => {
      failure := legFailure
      detail := "no staged path satisfies the ordered transit requirement" }
  | some best => { ok := true, paths := [best.path] }

/-- The loop over the combinations. -/
def transitLoop (view : PlanningView) (options : EnumerationOptions) (stages : List TransitStage) :
    List ℕ → Option RankedRawPath → DiagnosticCode → Work → EnumerationResult × Work
  | [], best, legFailure, work => (transitResult best legFailure, work)
  | combination :: combinations, best, legFailure, work =>
    match transitCombination view options (stages.zip (transitSelection stages combination).1)
      work with
    | (.reached ranked, work) =>
      transitLoop view options stages combinations (some (betterRanked view ranked best)) legFailure
        work
    | (.failed code, work) =>
      transitLoop view options stages combinations best (code.getD legFailure) work
    | (.exhausted detail, work) =>
      ({ resourceLimit := true, failure := .workBudgetExhausted, detail := detail }, work)

/-- The branch of `EnumerateCandidatePaths` for required transit. -/
def enumerateTransit (view : PlanningView) (stages : List TransitStage)
    (options : EnumerationOptions) (work : Work) : EnumerationResult × Work :=
  if options.maxCandidates > 1 then
    ({ failure := .unsupportedRequest
       detail := "K > 1 with required transit stages is not supported: staged legs have no proven " ++
        "K-shortest semantics" }, work)
  else
    match transitCombinations view.limits stages with
    | .error result => (result, work)
    | .ok combinations =>
      transitLoop view options stages (List.range combinations) none .requiredNodeMissing work

/-! ## Staged paths -/

/-- The leg that continues a path to a node: the canonical path there that avoids the nodes of the
path that it may not enter. -/
def IsLeg (view : PlanningView) (options : EnumerationOptions) (path : List ℕ)
    (enterable : ℕ → Bool) (target : ℕ) (leg : List ℕ) : Prop :=
  IsCanonicalPath view
    { nodes := (view.graph.nodes options.sourceView path).filter fun v => !enterable v }
    (view.graph.finish options.sourceView path) target (options.remainingHops path.length) leg

/-- The path that the selected alternatives lead to, from a path built so far. -/
def IsStagedFrom (view : PlanningView) (options : EnumerationOptions) :
    List NodeId → List ℕ → List ℕ → Prop
  | [], path, total =>
    let current := view.graph.finish options.sourceView path
    (options.hopsUsedUp path.length && current ≠ options.destinationView) = false ∧
      ∃ leg, IsLeg view options path (fun v => v = current || v = options.destinationView)
          options.destinationView leg ∧
        total = path ++ leg ∧ view.graph.IsSimple options.sourceView total ∧
        total.length ≤ maxHopCount ∧ view.pathWeight total < 2 ^ 64
  | alternative :: alternatives, path, total =>
    let current := view.graph.finish options.sourceView path
    options.hopsUsedUp path.length = false ∧
      ∃ target leg, view.viewIndex alternative = some target ∧
        IsLeg view options path (fun v => v = current) target leg ∧
        IsStagedFrom view options alternatives (path ++ leg) total

/-- One alternative for every stage. -/
def IsChoice (stages : List TransitStage) (selected : List NodeId) : Prop :=
  List.Forall₂ (fun stage alternative => alternative ∈ stage.alternatives) stages selected

theorem IsChoice.ne_nil {stages : List TransitStage} {selected : List NodeId}
    (h : IsChoice stages selected) : ∀ stage ∈ stages, stage.alternatives ≠ [] := by
  induction h with
  | nil => exact fun stage hstage => absurd hstage List.not_mem_nil
  | cons hmem _ ih => exact List.forall_mem_cons.mpr ⟨List.ne_nil_of_mem hmem, ih⟩

/-- The path of some choice of alternatives. -/
def IsStagedPath (view : PlanningView) (options : EnumerationOptions) (stages : List TransitStage)
    (total : List ℕ) : Prop :=
  ∃ selected, IsChoice stages selected ∧ IsStagedFrom view options selected [] total

/-- The first of the staged paths in the canonical order. -/
structure IsStagedOptimum (view : PlanningView) (options : EnumerationOptions)
    (stages : List TransitStage) (total : List ℕ) : Prop where
  staged : IsStagedPath view options stages total
  least : ∀ other, IsStagedPath view options stages other →
    view.pathKey options.sourceView total ≤ view.pathKey options.sourceView other

/-- The stages are visited in order: each by one of its alternatives, not before the stage ahead of
it. -/
def VisitsInOrder : List TransitStage → List NodeId → Prop
  | [], _ => True
  | stage :: stages, nodes => ∃ before node after, nodes = before ++ node :: after ∧
      node ∈ stage.alternatives ∧ VisitsInOrder stages (node :: after)

section Staged

variable {view : PlanningView} {options : EnumerationOptions} {stages : List TransitStage}
  {path total leg : List ℕ} {selected : List NodeId} {enterable : ℕ → Bool} {target : ℕ}

/-- The path of a choice is unique. -/
theorem IsStagedFrom.unique {other : List ℕ} (h : IsStagedFrom view options selected path total)
    (h' : IsStagedFrom view options selected path other) : total = other := by
  induction selected generalizing path with
  | nil =>
    obtain ⟨-, leg, hleg, rfl, -⟩ := h
    obtain ⟨-, leg', hleg', rfl, -⟩ := h'
    rw [hleg.unique hleg']
  | cons alternative selected ih =>
    obtain ⟨-, target, leg, ht, hleg, hrest⟩ := h
    obtain ⟨-, target', leg', ht', hleg', hrest'⟩ := h'
    obtain rfl := Option.some_inj.mp (ht.symm.trans ht')
    obtain rfl := hleg.unique hleg'
    exact ih hrest hrest'

/-- A leg stays within the hop bound. -/
theorem IsLeg.withinHops (h : IsLeg view options path enterable target leg)
    (hpath : WithinHops options.maxHops path.length) :
    WithinHops options.maxHops (path ++ leg).length := by
  have hmax := options.maxHops_le
  have hleg := h.admissible.withinHops
  rw [List.length_append]
  unfold WithinHops EnumerationOptions.remainingHops at *
  split_ifs at hleg <;> omega

/-- **A staged path** is a simple walk from the source to the destination within the hop bound. -/
theorem IsStagedFrom.isWalk (h : IsStagedFrom view options selected path total)
    (hwalk : view.graph.IsWalk options.sourceView path)
    (hhops : WithinHops options.maxHops path.length) :
    view.graph.IsWalk options.sourceView total ∧
      view.graph.finish options.sourceView total = options.destinationView ∧
      view.graph.IsSimple options.sourceView total ∧ WithinHops options.maxHops total.length ∧
      total.length ≤ maxHopCount ∧ view.pathWeight total < 2 ^ 64 := by
  induction selected generalizing path with
  | nil =>
    obtain ⟨-, leg, hleg, rfl, hs, hlen, hw⟩ := h
    refine ⟨?_, ?_, hs, hleg.withinHops hhops, hlen, hw⟩
    · rw [isWalk_append]
      exact ⟨hwalk, hleg.admissible.isWalk⟩
    · rw [finish_append]
      exact hleg.admissible.finish
  | cons alternative selected ih =>
    obtain ⟨-, target, leg, ht, hleg, hrest⟩ := h
    refine ih hrest ?_ (hleg.withinHops hhops)
    rw [isWalk_append]
    exact ⟨hwalk, hleg.admissible.isWalk⟩

/-- There is at most one staged optimum. -/
theorem IsStagedOptimum.unique (wf : view.WellFormed) {other : List ℕ}
    (h : IsStagedOptimum view options stages total)
    (h' : IsStagedOptimum view options stages other) : total = other := by
  obtain ⟨selected, -, hstaged⟩ := h.staged
  obtain ⟨selected', -, hstaged'⟩ := h'.staged
  have hwalk := (hstaged.isWalk trivial (Or.inr (Nat.zero_le _))).1
  have hwalk' := (hstaged'.isWalk trivial (Or.inr (Nat.zero_le _))).1
  exact wf.eq_of_pathKey_eq hwalk hwalk'
    (le_antisymm (h.least other h'.staged) (h'.least total h.staged))

/-- **A staged path visits the stages in order**, after the path built so far. -/
theorem IsStagedFrom.visitsInOrder (hchoice : IsChoice stages selected)
    (hindex : ∀ id v, view.viewIndex id = some v → (view.nodeAt v).id = id)
    (h : IsStagedFrom view options selected path total) :
    ∃ rest, total = path ++ rest ∧ VisitsInOrder stages
      ((view.graph.nodes (view.graph.finish options.sourceView path) rest).map
        fun v => (view.nodeAt v).id) := by
  induction hchoice generalizing path with
  | nil =>
    obtain ⟨-, leg, -, rfl, -⟩ := h
    exact ⟨leg, rfl, trivial⟩
  | cons hmem _ ih =>
    obtain ⟨-, target, leg, ht, hleg, hrest⟩ := h
    obtain ⟨rest, rfl, hvisits⟩ := ih hrest
    have hfinish := hleg.admissible.finish
    rw [finish_append, hfinish] at hvisits
    refine ⟨leg ++ rest, List.append_assoc _ _ _,
      ((view.graph.nodes (view.graph.finish options.sourceView path) leg).dropLast.map
        fun v => (view.nodeAt v).id), (view.nodeAt target).id,
      (rest.map view.graph.target).map fun v => (view.nodeAt v).id, ?_, ?_, hvisits⟩
    · rw [nodes_append, nodes_eq_dropLast_append, hfinish]
      simp
    · rw [hindex _ _ ht]
      exact hmem

end Staged

/-! ## The loops compute the staged paths -/

section Spec

variable {view : PlanningView} {options : EnumerationOptions} {progress progress' : TransitProgress}
  {path total : List ℕ} {work work' : Work} {stage : TransitStage} {alternative : NodeId}
  {enterable : ℕ → Bool}

/-- The progress is that along a walk from the source. -/
structure TransitProgress.Along (view : PlanningView) (options : EnumerationOptions)
    (progress : TransitProgress) (path : List ℕ) : Prop where
  isWalk : view.graph.IsWalk options.sourceView path
  combined : progress.combined = view.rawPath options.sourceView path
  current : progress.current = view.graph.finish options.sourceView path
  usedHops : progress.usedHops = path.length

theorem TransitProgress.along_start (view : PlanningView) (options : EnumerationOptions) :
    (TransitProgress.start options.sourceView).Along view options [] := ⟨trivial, rfl, rfl, rfl⟩

/-- The nodes banned are those of the path that may not be entered. -/
theorem TransitProgress.Along.bans_eq (h : progress.Along view options path) :
    progress.bans enterable =
      { nodes := (view.graph.nodes options.sourceView path).filter fun v => !enterable v } := by
  have hfold : ∀ (nodes : List ℕ) (bans : BanSet),
      nodes.foldl (fun bans node => if enterable node then bans else bans.addNode node) bans =
        { bans with nodes := bans.nodes ++ nodes.filter fun v => !enterable v } := by
    intro nodes
    induction nodes with
    | nil => simp
    | cons node nodes ih =>
      intro bans
      rw [List.foldl_cons, ih]
      by_cases he : enterable node = true <;> simp [he, BanSet.addNode]
  unfold TransitProgress.bans
  rw [hfold, h.combined]
  rfl

/-- A leg extends the progress along its walk. -/
theorem TransitProgress.Along.extend {leg : List ℕ} {target : ℕ}
    (h : progress.Along view options path)
    (hleg : view.graph.IsWalk (view.graph.finish options.sourceView path) leg)
    (hfinish : view.graph.finish (view.graph.finish options.sourceView path) leg = target) :
    (progress.extend (view.rawPath progress.current leg) target).Along view options
      (path ++ leg) where
  isWalk := isWalk_append.mpr ⟨h.isWalk, hleg⟩
  combined := by
    unfold TransitProgress.extend PlanningView.rawPath
    rw [h.combined, nodes_append]
    rfl
  current := by
    rw [finish_append, hfinish]
    rfl
  usedHops := by
    rw [List.length_append, ← h.usedHops]
    rfl

variable (wf : view.WellFormed) (coh : view.CostCoherent)
  (hsource : options.sourceView < view.nodeCount)

include wf hsource

/-- The search for a leg finds it, when there is one. -/
theorem TransitProgress.Along.leg_spec (h : progress.Along view options path) (target : ℕ)
    (enterable : ℕ → Bool) (work : Work)
    (hlimit : (shortestPath view (options.remainingHops progress.usedHops)
      (progress.bans enterable) progress.current target work).1.resourceLimit = false) :
    ((shortestPath view (options.remainingHops progress.usedHops)
        (progress.bans enterable) progress.current target work).1.found = true ∧
      ∃ leg, (shortestPath view (options.remainingHops progress.usedHops)
          (progress.bans enterable) progress.current target work).1.path =
        view.rawPath progress.current leg ∧ IsLeg view options path enterable target leg) ∨
    ((shortestPath view (options.remainingHops progress.usedHops)
        (progress.bans enterable) progress.current target work).1.found = false ∧
      ∀ leg, ¬ IsLeg view options path enterable target leg) := by
  have hlt : progress.current < view.nodeCount := by
    rw [h.current]
    exact wf.lt_of_mem_nodes hsource h.isWalk _ finish_mem_nodes
  rcases shortestPath_spec wf hlt hlimit with ⟨hf, leg, hpath, hleg⟩ | ⟨hf, hnone⟩
  · rw [h.bans_eq, h.current, h.usedHops] at hleg
    exact Or.inl ⟨hf, leg, hpath, hleg⟩
  · rw [h.bans_eq, h.current, h.usedHops] at hnone
    exact Or.inr ⟨hf, fun leg hleg => hnone leg hleg.admissible⟩

/-- **The loop over the stages** follows the staged path: it goes on along it, and where it fails
there is none. -/
theorem transitLegs_spec (h : progress.Along view options path)
    (selected : List (TransitStage × NodeId)) (work : Work) :
    match (transitLegs view options selected progress work).1 with
    | .reached progress' => ∃ path', progress'.Along view options path' ∧
        ∀ total, IsStagedFrom view options (selected.map (·.2)) path total ↔
          IsStagedFrom view options [] path' total
    | .failed _ => ∀ total, ¬ IsStagedFrom view options (selected.map (·.2)) path total
    | .exhausted _ => True := by
  induction selected generalizing progress path work with
  | nil => exact ⟨path, h, fun total => Iff.rfl⟩
  | cons entry selected ih =>
    obtain ⟨stage, alternative⟩ := entry
    rw [transitLegs]
    unfold transitLeg
    cases hindex : view.viewIndex alternative with
    | none =>
      rintro total ⟨-, target, leg, ht, -⟩
      rw [hindex] at ht
      cases ht
    | some target =>
      dsimp only
      by_cases hused : options.hopsUsedUp progress.usedHops = true
      · rw [if_pos hused]
        rintro total ⟨hfree, -⟩
        rw [h.usedHops, hfree] at hused
        cases hused
      · rw [if_neg hused]
        have hlegs := fun hlimit => h.leg_spec wf hsource target
          (fun node => node = progress.current) work hlimit
        generalize shortestPath view (options.remainingHops progress.usedHops)
          (progress.bans fun node => node = progress.current) progress.current target work =
            outcome at hlegs ⊢
        obtain ⟨outcome, work₁⟩ := outcome
        dsimp only at hlegs ⊢
        by_cases hlimit : outcome.resourceLimit = true
        · rw [if_pos hlimit]
          trivial
        · rw [if_neg hlimit]
          rw [Bool.not_eq_true] at hlimit hused
          rw [h.current] at hlegs
          rcases hlegs hlimit with ⟨hf, leg, hpath, hleg⟩ | ⟨hf, hnone⟩
          · rw [hf, Bool.not_true, if_neg Bool.false_ne_true, hpath, ← h.current]
            have halong := h.extend hleg.admissible.isWalk hleg.admissible.finish
            have hstep : ∀ total, IsStagedFrom view options
                (((stage, alternative) :: selected).map (·.2)) path total ↔
                  IsStagedFrom view options (selected.map (·.2)) (path ++ leg) total := by
              intro total
              constructor
              · rintro ⟨-, target', leg', ht', hleg', hrest⟩
                obtain rfl := Option.some_inj.mp (hindex.symm.trans ht')
                rwa [hleg.unique hleg']
              · intro hrest
                exact ⟨h.usedHops ▸ hused, target, leg, hindex, hleg, hrest⟩
            simp only [hstep]
            exact ih halong work₁
          · rw [hf, Bool.not_false, if_pos rfl]
            rintro total ⟨-, target', leg', ht', hleg', -⟩
            obtain rfl := Option.some_inj.mp (hindex.symm.trans ht')
            exact hnone leg' hleg'

include coh

/-- **The final leg** completes the staged path, or there is none. -/
theorem finalLeg_spec (h : progress.Along view options path) :
    match (finalLeg view options progress work).1 with
    | .reached ranked => ∃ total, ranked.Ranks view options.sourceView total ∧
        IsStagedFrom view options [] path total
    | .failed _ => ∀ total, ¬ IsStagedFrom view options [] path total
    | .exhausted _ => True := by
  unfold finalLeg
  by_cases hused : (options.hopsUsedUp progress.usedHops &&
      progress.current ≠ options.destinationView) = true
  · rw [if_pos hused]
    rintro total ⟨hfree, -⟩
    rw [h.usedHops, h.current, hfree] at hused
    cases hused
  · rw [if_neg hused]
    have hlegs := fun hlimit => h.leg_spec wf hsource options.destinationView
      (fun node => node = progress.current || node = options.destinationView) work hlimit
    dsimp only
    generalize shortestPath view (options.remainingHops progress.usedHops)
      (progress.bans fun node => node = progress.current || node = options.destinationView)
        progress.current options.destinationView work = outcome at hlegs ⊢
    obtain ⟨outcome, work₁⟩ := outcome
    dsimp only at hlegs ⊢
    by_cases hlimit : outcome.resourceLimit = true
    · rw [if_pos hlimit]
      trivial
    rw [if_neg hlimit]
    rw [Bool.not_eq_true] at hlimit hused
    rw [h.current] at hlegs
    rcases hlegs hlimit with ⟨hf, leg, hpath, hleg⟩ | ⟨hf, hnone⟩
    · rw [hf, Bool.not_true, if_neg Bool.false_ne_true, hpath, ← h.current]
      have halong := h.extend hleg.admissible.isWalk hleg.admissible.finish
      have hcost := PlanningView.computeRawPathCost_isSome_iff wf coh halong.isWalk
      have hsimple : rawPathIsSimple (view.rawPath options.sourceView (path ++ leg)) = true ↔
          view.graph.IsSimple options.sourceView (path ++ leg) := rawPathIsSimple_iff
      have huniq : ∀ total, IsStagedFrom view options [] path total → total = path ++ leg := by
        rintro total ⟨-, leg', hleg', rfl, -⟩
        rw [hleg.unique hleg']
      rw [halong.combined]
      by_cases hs : rawPathIsSimple (view.rawPath options.sourceView (path ++ leg)) = true
      · rw [hs, Bool.not_true, if_neg Bool.false_ne_true]
        cases hc : view.computeRawPathCost (view.rawPath options.sourceView (path ++ leg)) with
        | none =>
          rw [hc] at hcost
          intro total ht
          obtain ⟨-, -, -, -, -, hbounds⟩ := huniq total ht ▸ ht
          exact Bool.false_ne_true (hcost.mpr hbounds)
        | some cost =>
          rw [hc] at hcost
          refine ⟨path ++ leg, ⟨halong.isWalk, rfl, hc⟩, ?_, leg, hleg, rfl, hsimple.mp hs,
            hcost.mp rfl⟩
          rw [← h.usedHops, ← h.current]
          exact hused
      · rw [Bool.not_eq_true] at hs
        rw [hs, Bool.not_false, if_pos rfl]
        intro total ht
        obtain ⟨-, -, -, -, hsim, -⟩ := huniq total ht ▸ ht
        exact Bool.false_ne_true (hs.symm.trans (hsimple.mpr hsim))
    · rw [hf, Bool.not_false, if_pos rfl]
      rintro total ⟨-, leg', hleg', -⟩
      exact hnone leg' hleg'

/-- **One combination** yields the staged path of its choice, or there is none. -/
theorem transitCombination_spec (selected : List (TransitStage × NodeId)) (work : Work) :
    match (transitCombination view options selected work).1 with
    | .reached ranked => ∃ total, ranked.Ranks view options.sourceView total ∧
        IsStagedFrom view options (selected.map (·.2)) [] total
    | .failed _ => ∀ total, ¬ IsStagedFrom view options (selected.map (·.2)) [] total
    | .exhausted _ => True := by
  have hlegs := transitLegs_spec wf hsource (TransitProgress.along_start view options) selected work
  unfold transitCombination
  generalize transitLegs view options selected (.start options.sourceView) work = legs at hlegs ⊢
  obtain ⟨legs, work₁⟩ := legs
  cases legs with
  | reached progress =>
    obtain ⟨path, halong, hiff⟩ := hlegs
    simp only [hiff]
    exact finalLeg_spec wf coh hsource halong
  | failed code => exact hlegs
  | exhausted detail => trivial

/-! ## The loop over the combinations -/

omit wf coh hsource in
/-- A fold that fails fails at one of its steps. -/
theorem exists_mem_error_of_foldlM {ε σ β : Type} {f : σ → β → Except ε σ} {xs : List β} {state : σ}
    {ended : ε} (h : xs.foldlM f state = .error ended) : ∃ s, ∃ x ∈ xs, f s x = .error ended := by
  induction xs generalizing state with
  | nil => cases h
  | cons x xs ih =>
    rw [List.foldlM_cons] at h
    cases hstep : f state x with
    | error e =>
      rw [hstep] at h
      exact ⟨state, x, List.mem_cons_self, hstep.trans h⟩
    | ok s =>
      rw [hstep] at h
      obtain ⟨s', y, hy, hfail⟩ := ih h
      exact ⟨s', y, List.mem_cons_of_mem x hy, hfail⟩

omit wf coh hsource in
theorem transitCombinations_error {limits : ResourceLimits} {stages : List TransitStage}
    {result : EnumerationResult} (h : transitCombinations limits stages = .error result) :
    result.ok = false ∧ result.paths = [] := by
  unfold transitCombinations at h
  cases hfold : stages.foldlM (countTransitStage limits) (1, 0) with
  | error ended =>
    rw [hfold] at h
    obtain rfl := Except.error.inj h
    obtain ⟨count, stage, -, hstep⟩ := exists_mem_error_of_foldlM hfold
    unfold countTransitStage at hstep
    dsimp only at hstep
    split_ifs at hstep <;> exact (Except.error.inj hstep) ▸ ⟨rfl, rfl⟩
  | ok count =>
    rw [hfold] at h
    change (if _ then _ else if _ then _ else _) = _ at h
    split_ifs at h <;> exact (Except.error.inj h) ▸ ⟨rfl, rfl⟩

omit wf coh hsource in
/-- The count of combinations is the product of the numbers of alternatives, none of them zero. -/
theorem foldlM_countTransitStage {limits : ResourceLimits} {stages : List TransitStage}
    {count count' : ℕ × ℕ} (h : stages.foldlM (countTransitStage limits) count = .ok count') :
    count'.1 = count.1 * (stages.map (·.alternatives.length)).prod ∧
      ∀ stage ∈ stages, stage.alternatives ≠ [] := by
  induction stages generalizing count with
  | nil =>
    obtain rfl := Except.ok.inj h
    simp
  | cons stage stages ih =>
    rw [List.foldlM_cons] at h
    cases hstep : countTransitStage limits count stage with
    | error result =>
      rw [hstep] at h
      cases h
    | ok mid =>
      rw [hstep] at h
      obtain ⟨hprod, hne⟩ := ih h
      unfold countTransitStage at hstep
      dsimp only at hstep
      split_ifs at hstep with hempty
      obtain rfl := Except.ok.inj hstep
      rw [List.isEmpty_iff] at hempty
      rw [List.map_cons, List.prod_cons, ← mul_assoc]
      exact ⟨hprod, List.forall_mem_cons.mpr ⟨hempty, hne⟩⟩

omit wf coh hsource in
theorem transitCombinations_eq_ok {limits : ResourceLimits} {stages : List TransitStage}
    {combinations : ℕ} (h : transitCombinations limits stages = .ok combinations) :
    combinations = (stages.map (·.alternatives.length)).prod ∧
      ∀ stage ∈ stages, stage.alternatives ≠ [] := by
  unfold transitCombinations at h
  cases hfold : stages.foldlM (countTransitStage limits) (1, 0) with
  | error result =>
    rw [hfold] at h
    cases h
  | ok count =>
    obtain ⟨hprod, hne⟩ := foldlM_countTransitStage hfold
    rw [hfold] at h
    change (if _ then _ else if _ then _ else _) = _ at h
    split_ifs at h
    obtain rfl := Except.ok.inj h
    exact ⟨by simpa using hprod, hne⟩

omit wf coh hsource in
/-- What a combination selects is a choice. -/
theorem transitSelection_isChoice {stages : List TransitStage}
    (hne : ∀ stage ∈ stages, stage.alternatives ≠ []) (combination : ℕ) :
    IsChoice stages (transitSelection stages combination).1 := by
  induction stages with
  | nil => exact List.Forall₂.nil
  | cons stage stages ih =>
    obtain ⟨hstage, hne⟩ := List.forall_mem_cons.mp hne
    refine List.Forall₂.cons ?_ (ih hne)
    have hlt := Nat.mod_lt (transitSelection stages combination).2 (List.length_pos_iff.mpr hstage)
    rw [List.getD_eq_getElem?_getD, List.getElem?_eq_getElem hlt]
    exact List.getElem_mem hlt

omit wf coh hsource in
/-- Every choice is selected by some combination. -/
theorem exists_transitSelection {stages : List TransitStage} {selected : List NodeId}
    (h : IsChoice stages selected) (remainder : ℕ) :
    ∃ combination < (remainder + 1) * (stages.map (·.alternatives.length)).prod,
      transitSelection stages combination = (selected, remainder) := by
  induction h generalizing remainder with
  | nil => exact ⟨remainder, by simp, rfl⟩
  | @cons stage alternative stages selected hmem _ ih =>
    obtain ⟨j, hj, hget⟩ := List.getElem_of_mem hmem
    -- the digit of this stage goes below the remainder
    obtain ⟨combination, hlt, heq⟩ := ih (remainder * stage.alternatives.length + j)
    refine ⟨combination, hlt.trans_le ?_, ?_⟩
    · rw [List.map_cons, List.prod_cons, ← mul_assoc, add_mul remainder]
      refine Nat.mul_le_mul_right _ ?_
      omega
    · have hmod : (remainder * stage.alternatives.length + j) % stage.alternatives.length = j := by
        rw [mul_comm, Nat.mul_add_mod, Nat.mod_eq_of_lt hj]
      have hdiv : (remainder * stage.alternatives.length + j) / stage.alternatives.length =
          remainder := by
        rw [mul_comm, Nat.mul_add_div (by omega), Nat.div_eq_of_lt hj, add_zero]
      rw [transitSelection, heq]
      simp only [hmod, hdiv, List.getD_eq_getElem?_getD, List.getElem?_eq_getElem hj,
        Option.getD_some, hget]

omit wf coh hsource in
variable (view options) in
/-- The best of the paths of the combinations that were tried. -/
def IsBestOf (stages : List TransitStage) (tried : List ℕ) : Option RankedRawPath → Prop
  | none => ∀ c ∈ tried, ∀ total,
      ¬ IsStagedFrom view options (transitSelection stages c).1 [] total
  | some best => ∃ total, best.Ranks view options.sourceView total ∧
      (∃ c ∈ tried, IsStagedFrom view options (transitSelection stages c).1 [] total) ∧
      ∀ c ∈ tried, ∀ other, IsStagedFrom view options (transitSelection stages c).1 [] other →
        view.pathKey options.sourceView total ≤ view.pathKey options.sourceView other

omit hsource in
/-- The better of two is the best of what was tried with one more combination. -/
theorem IsBestOf.step {stages : List TransitStage} {tried : List ℕ} {best : Option RankedRawPath}
    {ranked : RankedRawPath} {c : ℕ} (h : IsBestOf view options stages tried best)
    (hranks : ranked.Ranks view options.sourceView total)
    (hstaged : IsStagedFrom view options (transitSelection stages c).1 [] total) :
    IsBestOf view options stages (tried ++ [c]) (some (betterRanked view ranked best)) := by
  have hnew : ∀ other, IsStagedFrom view options (transitSelection stages c).1 [] other →
      other = total := fun other ho => ho.unique hstaged
  cases best with
  | none =>
    refine ⟨total, hranks, ⟨c, by simp, hstaged⟩, fun d hd other ho => ?_⟩
    rcases List.mem_append.mp hd with hd | hd
    · exact absurd ho (h d hd other)
    · rw [List.mem_singleton.mp hd] at ho
      rw [hnew other ho]
  | some best =>
    obtain ⟨old, hold, ⟨d₀, hd₀, hstaged₀⟩, hleast⟩ := h
    have hbefore := rankedBefore_iff wf coh hranks hold
    change IsBestOf view options stages _
      (some (if rankedBefore view ranked best then ranked else best))
    split_ifs with hb
    · rw [hbefore] at hb
      refine ⟨total, hranks, ⟨c, by simp, hstaged⟩, fun d hd other ho => ?_⟩
      rcases List.mem_append.mp hd with hd | hd
      · exact hb.le.trans (hleast d hd other ho)
      · rw [List.mem_singleton.mp hd] at ho
        rw [hnew other ho]
    · rw [hbefore, not_lt] at hb
      refine ⟨old, hold, ⟨d₀, List.mem_append_left _ hd₀, hstaged₀⟩, fun d hd other ho => ?_⟩
      rcases List.mem_append.mp hd with hd | hd
      · exact hleast d hd other ho
      · rw [List.mem_singleton.mp hd] at ho
        rw [hnew other ho]
        exact hb

/-- **The loop over the combinations** ends with the best path of all of them, unless it is cut
off. -/
theorem transitLoop_best {stages : List TransitStage} (hne : ∀ stage ∈ stages, stage.alternatives ≠ [])
    {combinations tried : List ℕ} {best : Option RankedRawPath} {legFailure : DiagnosticCode}
    (h : IsBestOf view options stages tried best)
    (hlimit : (transitLoop view options stages combinations best legFailure work).1.resourceLimit =
      false) :
    ∃ final code, (transitLoop view options stages combinations best legFailure work).1 =
        transitResult final code ∧
      IsBestOf view options stages (tried ++ combinations) final := by
  induction combinations generalizing tried best legFailure work with
  | nil =>
    rw [List.append_nil]
    exact ⟨best, legFailure, rfl, h⟩
  | cons c combinations ih =>
    have hlen : (transitSelection stages c).1.length = stages.length :=
      (transitSelection_isChoice hne c).length_eq.symm
    have hspec := transitCombination_spec wf coh hsource
      (stages.zip (transitSelection stages c).1) work
    rw [List.map_snd_zip hlen.le] at hspec
    rw [transitLoop] at hlimit ⊢
    generalize transitCombination view options (stages.zip (transitSelection stages c).1) work =
      outcome at hspec hlimit ⊢
    obtain ⟨outcome, work₁⟩ := outcome
    rw [show tried ++ c :: combinations = tried ++ [c] ++ combinations by simp]
    cases outcome with
    | reached ranked =>
      obtain ⟨total, hranks, hstaged⟩ := hspec
      exact ih (h.step wf coh hranks hstaged) hlimit
    | failed code =>
      refine ih ?_ hlimit
      cases best with
      | none =>
        intro d hd
        rcases List.mem_append.mp hd with hd | hd
        · exact h d hd
        · rw [List.mem_singleton.mp hd]
          exact hspec
      | some best =>
        obtain ⟨total, hranks, ⟨d₀, hd₀, hstaged⟩, hleast⟩ := h
        refine ⟨total, hranks, ⟨d₀, List.mem_append_left _ hd₀, hstaged⟩, fun d hd other ho => ?_⟩
        rcases List.mem_append.mp hd with hd | hd
        · exact hleast d hd other ho
        · rw [List.mem_singleton.mp hd] at ho
          exact absurd ho (hspec other)
    | exhausted detail => cases hlimit

omit wf coh hsource in
/-- A loop that is cut off returns nothing. -/
theorem transitLoop_limited {stages : List TransitStage} {combinations : List ℕ}
    {best : Option RankedRawPath} {legFailure : DiagnosticCode}
    (h : (transitLoop view options stages combinations best legFailure work).1.resourceLimit = true) :
    (transitLoop view options stages combinations best legFailure work).1.ok = false ∧
      (transitLoop view options stages combinations best legFailure work).1.paths = [] := by
  induction combinations generalizing best legFailure work with
  | nil => cases best <;> cases h
  | cons combination combinations ih =>
    rw [transitLoop] at h ⊢
    split at h
    · exact ih h
    · exact ih h
    · exact ⟨rfl, rfl⟩

omit wf coh hsource in
/-- Required transit that is limited returns nothing. -/
theorem enumerateTransit_limited {stages : List TransitStage}
    (h : (enumerateTransit view stages options work).1.resourceLimit = true) :
    (enumerateTransit view stages options work).1.ok = false ∧
      (enumerateTransit view stages options work).1.paths = [] := by
  unfold enumerateTransit at h ⊢
  split_ifs at h ⊢
  cases hcount : transitCombinations view.limits stages with
  | error result => exact transitCombinations_error hcount
  | ok combinations =>
    rw [hcount] at h
    exact transitLoop_limited h

omit wf coh hsource in
/-- The count fails without a limit only at a stage without alternatives. -/
theorem exists_empty_of_transitCombinations {limits : ResourceLimits} {stages : List TransitStage}
    {result : EnumerationResult} (h : transitCombinations limits stages = .error result)
    (hlimit : result.resourceLimit = false) : ∃ stage ∈ stages, stage.alternatives = [] := by
  unfold transitCombinations at h
  cases hfold : stages.foldlM (countTransitStage limits) (1, 0) with
  | error ended =>
    rw [hfold] at h
    obtain rfl := Except.error.inj h
    obtain ⟨count, stage, hmem, hstep⟩ := exists_mem_error_of_foldlM hfold
    unfold countTransitStage at hstep
    dsimp only at hstep
    split_ifs at hstep with hempty
    · exact ⟨stage, hmem, List.isEmpty_iff.mp hempty⟩
    · rw [← Except.error.inj hstep] at hlimit
      cases hlimit
  | ok count =>
    rw [hfold] at h
    change (if _ then _ else if _ then _ else _) = _ at h
    split_ifs at h <;> exact absurd hlimit ((Except.error.inj h) ▸ Bool.noConfusion)

/-- **Required transit**, unless it is limited, finds the staged optimum, or there is no staged
path. -/
theorem enumerateTransit_decides {stages : List TransitStage} (hone : options.maxCandidates ≤ 1)
    (hlimit : (enumerateTransit view stages options work).1.resourceLimit = false) :
    ((enumerateTransit view stages options work).1.ok = true ∧
      ∃ total, (enumerateTransit view stages options work).1.paths =
          [view.rawPath options.sourceView total] ∧
        IsStagedOptimum view options stages total) ∨
    ((enumerateTransit view stages options work).1.ok = false ∧
      (enumerateTransit view stages options work).1.paths = [] ∧
      ∀ total, ¬ IsStagedPath view options stages total) := by
  unfold enumerateTransit at hlimit ⊢
  rw [if_neg (not_lt.mpr hone)] at hlimit ⊢
  cases hcount : transitCombinations view.limits stages with
  | error result =>
    rw [hcount] at hlimit
    obtain ⟨hok, hpaths⟩ := transitCombinations_error hcount
    obtain ⟨stage, hmem, hempty⟩ := exists_empty_of_transitCombinations hcount hlimit
    refine Or.inr ⟨hok, hpaths, ?_⟩
    rintro total ⟨selected, hchoice, -⟩
    exact hchoice.ne_nil stage hmem hempty
  | ok combinations =>
    rw [hcount] at hlimit
    obtain ⟨hprod, hne⟩ := transitCombinations_eq_ok hcount
    have hstart : IsBestOf view options stages [] none := fun c hc => absurd hc List.not_mem_nil
    obtain ⟨final, code, hresult, hbest⟩ := transitLoop_best wf coh hsource hne hstart hlimit
    -- every choice is the selection of some combination
    have hall : ∀ total, IsStagedPath view options stages total →
        ∃ c ∈ [] ++ List.range combinations,
          IsStagedFrom view options (transitSelection stages c).1 [] total := by
      rintro total ⟨selected, hchoice, ho⟩
      obtain ⟨d, hd, heq⟩ := exists_transitSelection hchoice 0
      refine ⟨d, ?_, by rwa [heq]⟩
      rw [List.nil_append, List.mem_range, hprod]
      simpa using hd
    dsimp only
    rw [hresult]
    cases final with
    | none =>
      refine Or.inr ⟨rfl, rfl, fun total ht => ?_⟩
      obtain ⟨c, hc, hstaged⟩ := hall total ht
      exact hbest c hc total hstaged
    | some best =>
      obtain ⟨total, hranks, ⟨c, -, hstaged⟩, hleast⟩ := hbest
      refine Or.inl ⟨rfl, total, by rw [transitResult, hranks.path_eq],
        ⟨_, transitSelection_isChoice hne c, hstaged⟩, fun other ho => ?_⟩
      obtain ⟨d, hd, hother⟩ := hall other ho
      exact hleast d hd other hother

/-- **Required transit** returns the staged optimum. -/
theorem enumerateTransit_spec {stages : List TransitStage}
    (hok : (enumerateTransit view stages options work).1.ok = true) :
    ∃ total, (enumerateTransit view stages options work).1.paths =
        [view.rawPath options.sourceView total] ∧ options.maxCandidates ≤ 1 ∧
      IsStagedOptimum view options stages total := by
  have hone : options.maxCandidates ≤ 1 := by
    by_contra hmany
    rw [enumerateTransit, if_pos (not_le.mp hmany)] at hok
    cases hok
  have hlimit : (enumerateTransit view stages options work).1.resourceLimit = false := by
    rw [← Bool.not_eq_true]
    intro hlimit
    rw [(enumerateTransit_limited hlimit).1] at hok
    cases hok
  rcases enumerateTransit_decides wf coh hsource hone hlimit with ⟨-, total, hpaths, hopt⟩ | ⟨hno, -⟩
  · exact ⟨total, hpaths, hone, hopt⟩
  · rw [hno] at hok
    cases hok

end Spec

end PathPlanner
