import PathPlanner.Coordinator.State
import PathPlanner.Runtime.Currentness

/-!
# Currentness over the wire

A coordinator answers a query about a plan from the evidence of the plan alone. Its runtime checks
the dependencies, the mode and the retained entry of the plan as well.

## Main definitions

* `Coordinator.answerFor`: the answer to the query that is built from a plan

## Main results

* `Coordinator.answerFor_severity_iff`: when the answer is at least as severe as the check
-/

namespace PathPlanner

/-! ## Severity -/

theorem moreSevere_eq_or (a b : Currentness) : moreSevere a b = a ∨ moreSevere a b = b := by
  unfold moreSevere
  split_ifs
  · exact Or.inl rfl
  · exact Or.inr rfl

/-- A classification neither retires a plan nor asks for its revalidation. -/
theorem classifyEvidence_ne {prior current : EvidenceVector} {c : Currentness}
    (hc : c = .retired ∨ c = .revalidationRequired) : classifyEvidence prior current ≠ c := by
  -- each dimension folds in a value of its own
  have hfold (worst stale : Currentness) (moved : Bool) (hs : stale ≠ c) (hw : worst ≠ c) :
      (if moved then moreSevere worst stale else worst) ≠ c := by
    split_ifs
    · rcases moreSevere_eq_or worst stale with h | h
      · rwa [h]
      · rwa [h]
    · exact hw
  unfold classifyEvidence
  rcases hc with rfl | rfl <;>
    exact hfold _ _ _ (by decide) <| hfold _ _ _ (by decide) <| hfold _ _ _ (by decide) <|
      hfold _ _ _ (by decide) <| hfold _ _ _ (by decide) <| hfold _ _ _ (by decide) <|
        hfold _ _ _ (by decide) (by decide)

theorem moreSevere_classified {a b : Currentness} (ha : a = .current ∨ a = .revalidationRequired)
    (hb : b ≠ .current) (hb' : b ≠ .revalidationRequired) : moreSevere a b = b := by
  rcases ha with rfl | rfl <;> cases b <;> simp_all [moreSevere, currentnessSeverity]

namespace RuntimeState

variable {state : RuntimeState} {plan : PathPlan}

/-- The comparison of the evidence of a plan that is not held back for a worse reason. -/
theorem compareEvidence_currentness {report : PlanCurrentnessReport}
    (h : report.currentness = .current ∨ report.currentness = .revalidationRequired) :
    (state.compareEvidence plan report).currentness =
      if classifyEvidence plan.evidence state.currentEvidence ≠ .current then
        classifyEvidence plan.evidence state.currentEvidence
      else if plan.evidence.publishSequence ≠ state.publishSequence then .revalidationRequired
      else report.currentness := by
  have hsequence : state.currentEvidence.publishSequence = state.publishSequence := rfl
  unfold compareEvidence
  dsimp only
  rw [hsequence]
  by_cases hclass : classifyEvidence plan.evidence state.currentEvidence = .current
  · rw [if_neg (not_not.mpr hclass), if_neg (not_not.mpr hclass)]
    by_cases hseq : plan.evidence.publishSequence = state.publishSequence
    · simp [hseq]
    · rcases h with h | h <;> simp [hseq, h]
  · rw [if_pos hclass, if_pos hclass]
    exact moreSevere_classified h hclass (classifyEvidence_ne (Or.inr rfl))

/-- The mode and the retained entry ask for revalidation. -/
def IsMarked (state : RuntimeState) (plan : PathPlan) : Prop :=
  plan.diagnosticMode = true ∨ state.retainedCurrentness plan = some .revalidationRequired

theorem noteRetained_eq_current_iff (state : RuntimeState) (plan : PathPlan) :
    (state.noteRetained plan (state.initialReport plan)).currentness = .current ↔
      ¬ state.IsMarked plan := by
  rw [noteRetained_currentness, initialReport_currentness, IsMarked, not_or, Bool.not_eq_true]

theorem noteRetained_currentness_or (state : RuntimeState) (plan : PathPlan) :
    (state.noteRetained plan (state.initialReport plan)).currentness = .current ∨
      (state.noteRetained plan (state.initialReport plan)).currentness = .revalidationRequired := by
  unfold noteRetained initialReport
  dsimp only
  split_ifs <;> simp [PlanCurrentnessReport.note, moreSevere, currentnessSeverity]

/-- The classification does not depend on the publication sequence. -/
theorem classifyEvidence_currentEvidence {snapshot : FabricSnapshot}
    (hs : state.snapshot = some snapshot) (prior : EvidenceVector) :
    classifyEvidence prior state.currentEvidence = classifyEvidence prior snapshot.evidence := by
  unfold currentEvidence
  rw [hs]
  rfl

/-! ## The verdict -/

theorem checkCurrentness_of_none (h : state.snapshot = none) :
    (state.checkCurrentness plan).currentness = .revalidationRequired := by
  unfold checkCurrentness initialReport
  rw [h]
  dsimp only
  split_ifs <;> rfl

theorem checkCurrentness_of_missing {snapshot : FabricSnapshot} (h : state.snapshot = some snapshot)
    {subject : SubjectKey} (hmem : subject ∈ collectPlanDependencies plan)
    (hmissing : subjectStillPresent snapshot subject = false) :
    (state.checkCurrentness plan).currentness = .retired := by
  unfold checkCurrentness
  rw [h]
  dsimp only
  cases hfind : missingDependency snapshot plan with
  | some subject => rfl
  | none =>
    have hpresent := missingDependency_eq_none_iff.mp hfind subject hmem
    rw [hmissing] at hpresent
    cases hpresent

theorem checkCurrentness_of_retired {snapshot : FabricSnapshot} (h : state.snapshot = some snapshot)
    (hretired : state.retainedCurrentness plan = some .retired) :
    (state.checkCurrentness plan).currentness = .retired := by
  unfold checkCurrentness
  rw [h]
  dsimp only
  cases missingDependency snapshot plan with
  | some subject => rfl
  | none =>
    dsimp only
    rw [if_pos hretired, note_currentness]

theorem checkCurrentness_of_present {snapshot : FabricSnapshot} (h : state.snapshot = some snapshot)
    (hpresent : ∀ subject ∈ collectPlanDependencies plan, subjectStillPresent snapshot subject = true)
    (hretired : state.retainedCurrentness plan ≠ some .retired) :
    (state.checkCurrentness plan).currentness =
      if classifyEvidence plan.evidence state.currentEvidence ≠ .current then
        classifyEvidence plan.evidence state.currentEvidence
      else if plan.evidence.publishSequence ≠ state.publishSequence then .revalidationRequired
      else (state.noteRetained plan (state.initialReport plan)).currentness := by
  unfold checkCurrentness
  rw [h]
  dsimp only
  rw [missingDependency_eq_none_iff.mpr hpresent]
  dsimp only
  rw [if_neg hretired]
  exact compareEvidence_currentness (noteRetained_currentness_or state plan)

end RuntimeState

namespace Coordinator

variable (c : Coordinator) (plan : PathPlan)

/-- The answer to the query that is built from a plan. -/
def answerFor : CurrentnessResultPayload :=
  c.answerQuery { plan := plan.id, evidence := plan.evidence, request := plan.request }

/-- The runtime holds a plan back for a reason that the evidence does not show: a dependency is
missing, the retained entry is retired, or the mode or the retained entry is all that makes the plan
not current. -/
def HeldBack (snapshot : FabricSnapshot) : Prop :=
  (∃ subject ∈ collectPlanDependencies plan, subjectStillPresent snapshot subject = false) ∨
    c.runtime.retainedCurrentness plan = some .retired ∨
    (classifyEvidence plan.evidence c.runtime.currentEvidence = .current ∧
      plan.evidence.publishSequence = c.runtime.publishSequence ∧ c.runtime.IsMarked plan)

variable {c plan}

theorem answerFor_of_none (h : c.runtime.snapshot = none) :
    (c.answerFor plan).currentness = .revalidationRequired := by
  unfold answerFor answerQuery classifyQuery answerOf
  rw [h]
  rfl

theorem answerFor_of_some {snapshot : FabricSnapshot} (h : c.runtime.snapshot = some snapshot) :
    (c.answerFor plan).currentness =
      if classifyEvidence plan.evidence c.runtime.currentEvidence ≠ .current then
        classifyEvidence plan.evidence c.runtime.currentEvidence
      else if plan.evidence.publishSequence ≠ c.runtime.publishSequence then .revalidationRequired
      else .current := by
  unfold answerFor answerQuery classifyQuery answerOf
  rw [RuntimeState.classifyEvidence_currentEvidence h, h]
  dsimp only [Option.elim]
  by_cases hclass : classifyEvidence plan.evidence snapshot.evidence = .current
  · by_cases hseq : plan.evidence.publishSequence = c.runtime.publishSequence <;>
      simp [hclass, hseq]
  · simp [hclass]

/-- The coordinator never answers that a plan is retired. -/
theorem not_answerFor_le_retired (h : c.runtime.snapshot.isSome) :
    ¬ currentnessSeverity (c.answerFor plan).currentness ≤ currentnessSeverity .retired := by
  have hpos (k : Currentness) (hk : k ≠ .retired) :
      ¬ currentnessSeverity k ≤ currentnessSeverity .retired := by
    cases k <;> simp_all [currentnessSeverity]
  obtain ⟨snapshot, h⟩ := Option.isSome_iff_exists.mp h
  apply hpos
  rw [answerFor_of_some h]
  split_ifs
  · exact classifyEvidence_ne (Or.inl rfl)
  · decide
  · decide

/-- **The answer over the wire** is at least as severe as what the runtime finds exactly when the
runtime does not hold the plan back for a reason that the evidence does not show. -/
theorem answerFor_severity_iff (c : Coordinator) (plan : PathPlan) :
    currentnessSeverity (c.answerFor plan).currentness ≤
        currentnessSeverity (c.runtime.checkCurrentness plan).currentness ↔
      ∀ snapshot, c.runtime.snapshot = some snapshot → ¬ c.HeldBack plan snapshot := by
  cases hs : c.runtime.snapshot with
  | none =>
    -- both ask for revalidation
    rw [answerFor_of_none hs, RuntimeState.checkCurrentness_of_none hs]
    exact iff_of_true le_rfl nofun
  | some snapshot =>
    have hsome : c.runtime.snapshot.isSome := hs ▸ rfl
    simp only [Option.some.injEq, forall_eq']
    by_cases hpresent :
        ∀ subject ∈ collectPlanDependencies plan, subjectStillPresent snapshot subject = true
    · by_cases hretired : c.runtime.retainedCurrentness plan = some .retired
      · rw [RuntimeState.checkCurrentness_of_retired hs hretired]
        exact iff_of_false (not_answerFor_le_retired hsome) (not_not.mpr (Or.inr (Or.inl hretired)))
      · -- the answer differs from the check only where the evidence is current
        rw [answerFor_of_some hs, RuntimeState.checkCurrentness_of_present hs hpresent hretired]
        have hheld : c.HeldBack plan snapshot ↔
            classifyEvidence plan.evidence c.runtime.currentEvidence = .current ∧
              plan.evidence.publishSequence = c.runtime.publishSequence ∧
              c.runtime.IsMarked plan := by
          unfold HeldBack
          rw [or_iff_right, or_iff_right hretired]
          rintro ⟨subject, hmem, hmissing⟩
          rw [hpresent subject hmem] at hmissing
          cases hmissing
        rw [hheld]
        split_ifs with hclass hsequence
        · exact iff_of_true le_rfl fun h => hclass h.1
        · exact iff_of_true le_rfl fun h => hsequence h.2.1
        · have hclass := not_not.mp hclass
          have hsequence := not_not.mp hsequence
          have hcurrent := c.runtime.noteRetained_eq_current_iff plan
          rw [← not_iff_not, not_not, and_iff_right hclass, and_iff_right hsequence]
          rw [← not_iff_not, not_not, ← hcurrent]
          rcases c.runtime.noteRetained_currentness_or plan with h | h <;> rw [h] <;>
            decide
    · push Not at hpresent
      obtain ⟨subject, hmem, hmissing⟩ := hpresent
      have hmissing := Bool.eq_false_of_not_eq_true hmissing
      rw [RuntimeState.checkCurrentness_of_missing hs hmem hmissing]
      exact iff_of_false (not_answerFor_le_retired hsome)
        (not_not.mpr (Or.inl ⟨subject, hmem, hmissing⟩))

/-! ## A recovered plan -/

/-- The record of a plan between the endpoints of a node of `singleLink`. -/
def localRecord : StoredPlanRecord where
  plan := .tagged 0 1
  evidence := singleLink.evidence
  candidates := [{ source := .tagged 0 1, destination := .tagged 0 1, nodes := [.tagged 0 1] }]
  costs := [⟨.ofNat 0, .ofNat 0, .ofNat 0, .ofNat 0, .ofNat 0, .ofNat 0, 0, 0⟩]

/-- A coordinator over one link. -/
def linkCoordinator : Coordinator := .new {} (some singleLink) (.ofNat 1)

/-- A coordinator that has recovered the plan. -/
def recoveredCoordinator : Coordinator := linkCoordinator.recoverStore constantHash [localRecord]

/-- The coordinator answers that a recovered plan is current. -/
theorem not_answerFor_severity_recoveredCoordinator :
    ¬ ∀ (c : Coordinator) (plan : PathPlan) (currentness : Currentness),
      c.runtime.retained.lookup plan.id = some ⟨plan, currentness⟩ →
      currentnessSeverity (c.answerFor plan).currentness ≤
        currentnessSeverity (c.runtime.checkCurrentness plan).currentness := by
  intro h
  have hretained : recoveredCoordinator.runtime.retained.lookup
      (recoveredPlan constantHash localRecord).id =
        some ⟨recoveredPlan constantHash localRecord, .revalidationRequired⟩ := rfl
  exact absurd (h _ _ _ hretained) (by decide +kernel)

end Coordinator

end PathPlanner
