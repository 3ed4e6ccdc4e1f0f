import PathPlanner.Search.Budget
import PathPlanner.Search.Candidates

/-!
# The order of transit alternatives

The combinations of required transit are tried one after the other, from one budget. The searches of
a combination cost the same wherever it stands, so the budget covers all combinations in one order
exactly when it covers them in every other; and the best of the paths is the same.

## Main definitions

* `choices`: the choices of alternatives, in the order of the combinations
* `SameAlternatives`: stages that offer the same alternatives in some order
* `SameAnswer`: enumerations that answer alike

## Main results

* `map_transitSelection`: the combinations select the choices in order
* `transitLoop_limited_iff`: the loop is cut off when some combination is
* `enumerateCandidatePaths_sameAlternatives`: the order of alternatives does not matter
-/

namespace PathPlanner

open Meter

/-! ## Choices -/

/-- The choices of alternatives, the last stage varying first. -/
def choices : List TransitStage → List (List NodeId)
  | [] => [[]]
  | stage :: stages =>
    stage.alternatives.flatMap fun alternative => (choices stages).map (alternative :: ·)

/-- The number of choices. -/
def choiceCount (stages : List TransitStage) : ℕ := (stages.map (·.alternatives.length)).prod

theorem choiceCount_cons (stage : TransitStage) (stages : List TransitStage) :
    choiceCount (stage :: stages) = stage.alternatives.length * choiceCount stages := rfl

/-- A combination below the number of choices selects the same on top of a multiple of it, which
remains. -/
theorem transitSelection_add {stages : List TransitStage} {j : ℕ} (hj : j < choiceCount stages)
    (i : ℕ) : transitSelection stages (i * choiceCount stages + j) =
      ((transitSelection stages j).1, i) := by
  induction stages generalizing i j with
  | nil =>
    obtain rfl : j = 0 := by simpa [choiceCount] using hj
    simp [choiceCount, transitSelection]
  | cons stage stages ih =>
    rw [choiceCount_cons] at hj ⊢
    have hpos : 0 < choiceCount stages := by
      rcases Nat.eq_zero_or_pos (choiceCount stages) with hzero | hpos
      · rw [hzero, Nat.mul_zero] at hj
        exact absurd hj (Nat.not_lt_zero j)
      · exact hpos
    -- the digit of the stage, and what the stages after it select
    have hdigit : j / choiceCount stages < stage.alternatives.length :=
      Nat.div_lt_of_lt_mul (by rwa [Nat.mul_comm] at hj)
    have hrest := Nat.mod_lt j hpos
    have hsplit : j = j / choiceCount stages * choiceCount stages + j % choiceCount stages := by
      rw [Nat.mul_comm]
      exact (Nat.div_add_mod j _).symm
    have hcombined : i * (stage.alternatives.length * choiceCount stages) + j =
        (i * stage.alternatives.length + j / choiceCount stages) * choiceCount stages +
          j % choiceCount stages := by
      rw [Nat.add_mul, Nat.mul_assoc, Nat.add_assoc, ← hsplit]
    have hlow : transitSelection stages j =
        ((transitSelection stages (j % choiceCount stages)).1, j / choiceCount stages) := by
      conv_lhs => rw [hsplit]
      exact ih hrest _
    have hhigh : transitSelection stages (i * (stage.alternatives.length * choiceCount stages) + j) =
        ((transitSelection stages (j % choiceCount stages)).1,
          i * stage.alternatives.length + j / choiceCount stages) := by
      rw [hcombined]
      exact ih hrest _
    have hmod : (i * stage.alternatives.length + j / choiceCount stages) %
        stage.alternatives.length = j / choiceCount stages := by
      rw [Nat.mul_comm, Nat.mul_add_mod, Nat.mod_eq_of_lt hdigit]
    have hdiv : (i * stage.alternatives.length + j / choiceCount stages) /
        stage.alternatives.length = i := by
      rw [Nat.mul_comm, Nat.mul_add_div (by omega), Nat.div_eq_of_lt hdigit, Nat.add_zero]
    rw [transitSelection, transitSelection, hlow, hhigh]
    simp only [hmod, hdiv, Nat.mod_eq_of_lt hdigit]

/-- **The combinations** select the choices in order. -/
theorem map_transitSelection (stages : List TransitStage) :
    (List.range (choiceCount stages)).map (fun c => (transitSelection stages c).1) =
      choices stages := by
  induction stages with
  | nil => rfl
  | cons stage stages ih =>
    have hblocks (n : ℕ) : List.range (n * choiceCount stages) =
        (List.range n).flatMap fun i =>
          (List.range (choiceCount stages)).map (i * choiceCount stages + ·) := by
      induction n with
      | zero => simp
      | succ n ihn => rw [Nat.add_mul, Nat.one_mul, List.range_add, ihn, List.range_succ,
          List.flatMap_append, List.flatMap_singleton]
    have halternatives : stage.alternatives =
        (List.range stage.alternatives.length).map (stage.alternatives.getD · default) := by
      refine List.ext_getElem (by simp) fun i hi _ => ?_
      simp [List.getElem?_eq_getElem hi]
    rw [choiceCount_cons, hblocks, List.map_flatMap, choices, ← ih]
    conv_rhs => rw [halternatives]
    rw [List.flatMap_map]
    refine List.flatMap_congr fun i hi => ?_
    rw [List.map_map, List.map_map]
    refine List.map_congr_left fun j hj => ?_
    rw [List.mem_range] at hi hj
    simp only [Function.comp_apply, transitSelection, transitSelection_add hj, Nat.mod_eq_of_lt hi]

/-! ## Stages that differ in the order of their alternatives -/

/-- The same alternatives in some order. -/
structure SameAlternatives (stage stage' : TransitStage) : Prop where
  kind_eq : stage.kind = stage'.kind
  perm : stage.alternatives.Perm stage'.alternatives

section Perm

variable {stages stages' : List TransitStage}

/-- The choices are the same, in some order. -/
theorem choices_perm (h : List.Forall₂ SameAlternatives stages stages') :
    (choices stages).Perm (choices stages') := by
  induction h with
  | nil => exact List.Perm.refl _
  | cons hstage _ ih =>
    rw [choices, choices]
    exact hstage.perm.flatMap fun alternative _ => ih.map _

theorem isChoice_iff_of_sameAlternatives (h : List.Forall₂ SameAlternatives stages stages')
    {selected : List NodeId} : IsChoice stages selected ↔ IsChoice stages' selected := by
  induction h generalizing selected with
  | nil => exact Iff.rfl
  | cons hstage _ ih =>
    unfold IsChoice
    rw [List.forall₂_cons_left_iff, List.forall₂_cons_left_iff]
    simp only [hstage.perm.mem_iff]
    exact exists₂_congr fun _ _ => and_congr_right fun _ => and_congr_left fun _ => ih

/-- The count of the combinations looks at the numbers of alternatives only. -/
theorem transitCombinations_sameAlternatives (h : List.Forall₂ SameAlternatives stages stages')
    (limits : ResourceLimits) :
    transitCombinations limits stages = transitCombinations limits stages' := by
  have hfold (count : ℕ × ℕ) : stages.foldlM (countTransitStage limits) count =
      stages'.foldlM (countTransitStage limits) count := by
    induction h generalizing count with
    | nil => rfl
    | @cons stage stage' _ _ hstage _ ih =>
      have hstep : countTransitStage limits count stage = countTransitStage limits count stage' := by
        unfold countTransitStage
        rw [hstage.perm.isEmpty_eq, hstage.perm.length_eq]
      rw [List.foldlM_cons, List.foldlM_cons, hstep]
      exact bind_congr ih
  unfold transitCombinations
  rw [hfold]

variable (view : PlanningView) (options : EnumerationOptions)

/-- A leg looks at the kind of its stage only. -/
theorem transitLegs_sameAlternatives (h : List.Forall₂ SameAlternatives stages stages')
    (selected : List NodeId) :
    transitLegs view options (stages.zip selected) =
      transitLegs view options (stages'.zip selected) := by
  induction h generalizing selected with
  | nil => rfl
  | @cons stage stage' _ _ hstage _ ih =>
    cases selected with
    | nil => rfl
    | cons alternative selected =>
      have hleg : transitLeg view options stage alternative =
          transitLeg view options stage' alternative := by
        funext progress work
        unfold transitLeg
        rw [hstage.kind_eq]
      funext progress work
      rw [List.zip_cons_cons, List.zip_cons_cons, transitLegs, transitLegs, hleg, ih]

/-! ## The budget -/

/-- The computations of the combinations. -/
def combinationJobs (stages : List TransitStage) : List (Work → LegOutcome RankedRawPath × Work) :=
  (choices stages).map fun selected => transitCombination view options (stages.zip selected)

theorem combinationJobs_perm (h : List.Forall₂ SameAlternatives stages stages') :
    (combinationJobs view options stages).Perm (combinationJobs view options stages') := by
  have hjob : (fun selected => transitCombination view options (stages.zip selected)) =
      fun selected => transitCombination view options (stages'.zip selected) := by
    funext selected work
    unfold transitCombination
    rw [transitLegs_sameAlternatives view options h]
  rw [combinationJobs, combinationJobs, hjob]
  exact (choices_perm h).map _

/-- A combination that is not cut off. -/
def IsSettled (outcome : LegOutcome RankedRawPath) : Prop :=
  ∀ detail, outcome ≠ .exhausted detail

variable {view options}

/-- **The loop over the combinations** is limited exactly when one of them is cut off. -/
theorem transitLoop_limited_iff {combinations : List ℕ} {best : Option RankedRawPath}
    {legFailure : DiagnosticCode} {work : Work} :
    (transitLoop view options stages combinations best legFailure work).1.resourceLimit = false ↔
      AllGood IsSettled (combinations.map fun combination =>
        transitCombination view options (stages.zip (transitSelection stages combination).1)) work := by
  induction combinations generalizing best legFailure work with
  | nil =>
    refine iff_of_true ?_ trivial
    cases best <;> rfl
  | cons combination combinations ih =>
    rw [transitLoop, List.map_cons, AllGood]
    cases transitCombination view options (stages.zip (transitSelection stages combination).1)
      work with
    | mk outcome rest =>
      cases outcome with
      | reached ranked => exact ih.trans (iff_and_self.mpr fun _ _ h => LegOutcome.noConfusion rfl (heq_of_eq h))
      | failed code => exact ih.trans (iff_and_self.mpr fun _ _ h => LegOutcome.noConfusion rfl (heq_of_eq h))
      | exhausted detail => exact iff_of_false Bool.noConfusion fun h => h.1 detail rfl

/-- **The budget covers the combinations** in one order exactly when it does in every other. -/
theorem enumerateTransit_limited_of_sameAlternatives
    (h : List.Forall₂ SameAlternatives stages stages') {work : Work}
    (hlimit : (enumerateTransit view stages options work).1.resourceLimit = false) :
    (enumerateTransit view stages' options work).1.resourceLimit = false := by
  unfold enumerateTransit at hlimit ⊢
  rw [← transitCombinations_sameAlternatives h]
  split_ifs at hlimit ⊢
  · rfl
  cases hcount : transitCombinations view.limits stages with
  | error result =>
    rw [hcount] at hlimit
    exact hlimit
  | ok combinations =>
    rw [hcount] at hlimit
    have hcount' := (transitCombinations_sameAlternatives h view.limits).symm.trans hcount
    have hrange : combinations = choiceCount stages := (transitCombinations_eq_ok hcount).1
    have hrange' : combinations = choiceCount stages' := (transitCombinations_eq_ok hcount').1
    have hjobs (stages : List TransitStage) : ((List.range (choiceCount stages)).map
        fun combination => transitCombination view options
          (stages.zip (transitSelection stages combination).1)) =
        combinationJobs view options stages := by
      rw [combinationJobs, ← map_transitSelection, List.map_map]
      rfl
    have hgood := transitLoop_limited_iff.mp hlimit
    rw [hrange, hjobs] at hgood
    refine transitLoop_limited_iff.mpr ?_
    rw [hrange', hjobs]
    refine AllGood.perm (M := workMeter) (fun job hjob => ?_) (combinationJobs_perm view options h)
      hgood
    obtain ⟨selected, -, rfl⟩ := List.mem_map.mp hjob
    exact transitCombination_isMetered view options (stages.zip selected)

/-! ## The answer -/

/-- The enumerations answer alike: the same success, the same limit, the same paths. -/
structure SameAnswer (result result' : EnumerationResult) : Prop where
  ok_eq : result.ok = result'.ok
  resourceLimit_eq : result.resourceLimit = result'.resourceLimit
  paths_eq : result.paths = result'.paths

theorem isStagedOptimum_of_sameAlternatives (h : List.Forall₂ SameAlternatives stages stages')
    {total : List ℕ} (hopt : IsStagedOptimum view options stages total) :
    IsStagedOptimum view options stages' total := by
  have hiff (total : List ℕ) :
      IsStagedPath view options stages total ↔ IsStagedPath view options stages' total :=
    exists_congr fun _ => and_congr_left fun _ => isChoice_iff_of_sameAlternatives h
  exact ⟨(hiff total).mp hopt.staged, fun other ho => hopt.least other ((hiff other).mpr ho)⟩

theorem forall₂_sameAlternatives_symm (h : List.Forall₂ SameAlternatives stages stages') :
    List.Forall₂ SameAlternatives stages' stages :=
  h.flip.imp fun _ _ hstage => ⟨hstage.kind_eq.symm, hstage.perm.symm⟩

variable (wf : view.WellFormed) (coh : view.CostCoherent)
  (hsource : options.sourceView < view.nodeCount)

include wf coh hsource

/-- **The order of alternatives** changes nothing in the answer of required transit. -/
theorem enumerateTransit_sameAlternatives (h : List.Forall₂ SameAlternatives stages stages')
    (work : Work) : SameAnswer (enumerateTransit view stages options work).1
      (enumerateTransit view stages' options work).1 := by
  have hsymm := forall₂_sameAlternatives_symm h
  by_cases hmany : options.maxCandidates > 1
  · -- several candidates are refused whatever the stages are
    simp only [enumerateTransit, if_pos hmany]
    exact ⟨rfl, rfl, rfl⟩
  have hone := not_lt.mp hmany
  cases hlimit : (enumerateTransit view stages options work).1.resourceLimit with
  | true =>
    have hlimit' : (enumerateTransit view stages' options work).1.resourceLimit = true := by
      rw [← Bool.not_eq_false]
      intro hfree
      rw [enumerateTransit_limited_of_sameAlternatives hsymm hfree] at hlimit
      cases hlimit
    obtain ⟨hok, hpaths⟩ := enumerateTransit_limited hlimit
    obtain ⟨hok', hpaths'⟩ := enumerateTransit_limited hlimit'
    exact ⟨hok.trans hok'.symm, hlimit.trans hlimit'.symm, hpaths.trans hpaths'.symm⟩
  | false =>
    have hlimit' := enumerateTransit_limited_of_sameAlternatives h hlimit
    have hdecides := enumerateTransit_decides wf coh hsource hone hlimit
    have hdecides' := enumerateTransit_decides wf coh hsource hone hlimit'
    rcases hdecides with ⟨hok, total, hpaths, hopt⟩ | ⟨hok, hpaths, hnone⟩
    · have hopt' := isStagedOptimum_of_sameAlternatives h hopt
      rcases hdecides' with ⟨hok', other, hpaths', hother⟩ | ⟨-, -, hnone'⟩
      · obtain rfl := hopt'.unique wf hother
        exact ⟨hok.trans hok'.symm, hlimit.trans hlimit'.symm, hpaths.trans hpaths'.symm⟩
      · exact absurd hopt'.staged (hnone' total)
    · rcases hdecides' with ⟨-, other, -, hother⟩ | ⟨hok', hpaths', -⟩
      · exact absurd (isStagedOptimum_of_sameAlternatives hsymm hother).staged (hnone other)
      · exact ⟨hok.trans hok'.symm, hlimit.trans hlimit'.symm, hpaths.trans hpaths'.symm⟩

end Perm

/-- The request with other stages of required transit. -/
def PlanningRequest.withTransit (request : PlanningRequest) (stages : List TransitStage) :
    PlanningRequest :=
  { request with constraints := { request.constraints with requiredTransit := stages } }

/-- **Transit alternatives are unordered**: the order of the alternatives inside the stages changes
neither whether the enumeration succeeds, nor whether it reports a limit, nor the paths. -/
theorem enumerateCandidatePaths_sameAlternatives {view : PlanningView} (wf : view.WellFormed)
    (coh : view.CostCoherent) {options : EnumerationOptions}
    (hsource : options.sourceView < view.nodeCount) (request : PlanningRequest)
    {stages : List TransitStage}
    (h : List.Forall₂ SameAlternatives request.constraints.requiredTransit stages) (work : Work) :
    SameAnswer (enumerateCandidatePaths view request options work).1
      (enumerateCandidatePaths view (request.withTransit stages) options work).1 := by
  have hempty : request.constraints.requiredTransit.isEmpty = stages.isEmpty := by
    generalize request.constraints.requiredTransit = stages' at h
    cases h <;> rfl
  unfold enumerateCandidatePaths
  rw [hempty]
  change SameAnswer _ (if !stages.isEmpty then enumerateTransit view stages options work
    else _ : EnumerationResult × Work).1
  split_ifs
  · exact enumerateTransit_sameAlternatives wf coh hsource h work
  · -- without stages nothing differs that the enumeration looks at
    exact ⟨rfl, rfl, rfl⟩

/-- A request through either node of a stage. -/
def throughEither : PlanningRequest :=
  (PlanningRequest.between 1 3).withTransit [⟨.anyOf, [.tagged 0 2, .tagged 0 3]⟩]

/-- Options to find one path from the first node to the last. -/
def onePath : EnumerationOptions where
  sourceView := 0
  destinationView := 2
  maxHops := noHopBound
  maxHops_le := noHopBound_le_noHopBound

theorem enumerateCandidatePaths_sameAlternatives_doubledView :
    SameAnswer (enumerateCandidatePaths doubledView.view throughEither onePath smallBudget).1
      (enumerateCandidatePaths doubledView.view
        (throughEither.withTransit [⟨.anyOf, [.tagged 0 3, .tagged 0 2]⟩]) onePath smallBudget).1 := by
  have hsame : List.Forall₂ SameAlternatives throughEither.constraints.requiredTransit
      [⟨.anyOf, [.tagged 0 3, .tagged 0 2]⟩] :=
    .cons ⟨rfl, .swap _ _ []⟩ .nil
  have hsource : onePath.sourceView < doubledView.view.nodeCount := by decide +kernel
  exact enumerateCandidatePaths_sameAlternatives doubledView_spec.1 doubledView_spec.2 hsource
    throughEither hsame smallBudget

end PathPlanner
