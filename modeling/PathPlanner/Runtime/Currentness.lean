import PathPlanner.Runtime.State

/-!
# Currentness of a plan

`CheckCurrentness` compares the evidence of a plan with the current evidence of a runtime. It
computes a verdict and, separately, the list of the changes it found.

## Main definitions

* `diffEvidence`: the changed dimensions of two evidence vectors
* `RuntimeState.checkCurrentness`: the report about a plan
* `RuntimeState.Supports`: the state of a runtime in which a plan is current

## Main results

* `checkCurrentness_current_iff`: when the verdict is current
* `checkCurrentness_changes_iff`: when no change is reported
-/

namespace PathPlanner

/-! ## Differences of evidence -/

/-- `EvidenceChangeDetail`. -/
def evidenceChangeDetail (dimension : String) (before after : ℕ) : String :=
  dimension ++ " generation changed: " ++ before.repr ++ " -> " ++ after.repr

/-- The entry of a dimension, when it changed. -/
def changeEntry (moved : Bool) (code : DiagnosticCode) (detail : String) : List ExplanationEntry :=
  if moved then [⟨code, detail⟩] else []

theorem changeEntry_eq_nil_iff {moved : Bool} {code : DiagnosticCode} {detail : String} :
    changeEntry moved code detail = [] ↔ moved = false := by
  cases moved <;> simp [changeEntry]

/-- `DiffEvidence`. -/
def diffEvidence (prior current : EvidenceVector) : List ExplanationEntry :=
  let p := prior.generations
  let c := current.generations
  let generation {Tag : Type} (code : DiagnosticCode) (dimension : String)
      (before after : UInt64Of Tag) : List ExplanationEntry :=
    changeEntry (before != after) code (evidenceChangeDetail dimension before.value after.value)
  generation .topologyGenerationMismatch "topology" p.topology c.topology ++
  generation .staleEvidence "link-state" p.linkState c.linkState ++
  generation .staleEvidence "port" p.ports c.ports ++
  generation .staleEvidence "capability" p.capabilities c.capabilities ++
  generation .staleEvidence "failure-domain" p.failureDomains c.failureDomains ++
  generation .staleEvidence "policy" p.policy c.policy ++
  generation .epochMismatch "fabric epoch" p.epoch c.epoch ++
  changeEntry (prior.snapshot != current.snapshot) .staleEvidence
    ("snapshot identity changed: " ++ prior.snapshot.toString ++ " -> " ++
      current.snapshot.toString) ++
  changeEntry (prior.publishSequence != current.publishSequence) .invalidationWatermarkChanged
    ("publication watermark advanced: " ++ prior.publishSequence.toString ++ " -> " ++
      current.publishSequence.toString)

/-- Evidence does not differ exactly when it is classified as current, and the snapshot and the
publication sequence are the same. -/
theorem diffEvidence_eq_nil_iff {prior current : EvidenceVector} :
    diffEvidence prior current = [] ↔ classifyEvidence prior current = .current ∧
      prior.snapshot = current.snapshot ∧ prior.publishSequence = current.publishSequence := by
  rw [classifyEvidence_eq_current_iff]
  obtain ⟨_, ⟨⟩, _, _⟩ := prior
  simp only [diffEvidence, List.append_eq_nil_iff, changeEntry_eq_nil_iff, bne_eq_false_iff_eq,
    SnapshotGenerations.mk.injEq]
  tauto

/-! ## The report -/

/-- `PlanCurrentnessReport`. -/
structure PlanCurrentnessReport where
  currentness : Currentness := .current
  changes : List ExplanationEntry := []
  priorEvidence : EvidenceVector := {}
  currentEvidence : EvidenceVector := {}

/-- A report with one more change. -/
def PlanCurrentnessReport.note (report : PlanCurrentnessReport) (currentness : Currentness)
    (code : DiagnosticCode) (detail : String) : PlanCurrentnessReport :=
  { report with currentness, changes := report.changes ++ [⟨code, detail⟩] }

namespace RuntimeState

variable (state : RuntimeState) (plan : PathPlan)

/-- The current evidence of a runtime. -/
def currentEvidence : EvidenceVector :=
  { state.snapshot.elim {} (·.evidence) with publishSequence := state.publishSequence }

/-- The currentness of the retained entry of a plan. -/
def retainedCurrentness : Option Currentness :=
  (state.retained.lookup plan.id).map (·.currentness)

/-- The end of `CheckCurrentness`, the comparison of the evidence. -/
def compareEvidence (report : PlanCurrentnessReport) : PlanCurrentnessReport :=
  let report := { report with
    changes := report.changes ++ diffEvidence plan.evidence state.currentEvidence }
  let classified := classifyEvidence plan.evidence state.currentEvidence
  if classified ≠ .current then
    { report with currentness := moreSevere report.currentness classified }
  else if plan.evidence.publishSequence ≠ state.currentEvidence.publishSequence ∧
      report.currentness = .current then
    { report with currentness := .revalidationRequired }
  else report

/-- The report at the beginning, with the entry of a diagnostic plan. -/
def initialReport : PlanCurrentnessReport :=
  let report : PlanCurrentnessReport :=
    { priorEvidence := plan.evidence, currentEvidence := state.currentEvidence }
  if plan.diagnosticMode then
    report.note .revalidationRequired .nonCurrentCandidate
      "the plan was computed in diagnostic mode and is not CURRENT"
  else report

/-- The report with the entry of a retained plan that is marked. -/
def noteRetained (report : PlanCurrentnessReport) : PlanCurrentnessReport :=
  if state.retainedCurrentness plan = some .revalidationRequired then
    report.note (moreSevere report.currentness .revalidationRequired) .staleEvidence
      "the retained plan was invalidated by a targeted notice"
  else report

/-- The first dependency of a plan that a snapshot lacks. -/
def missingDependency (snapshot : FabricSnapshot) (plan : PathPlan) : Option SubjectKey :=
  (collectPlanDependencies plan).find? (!subjectStillPresent snapshot ·)

/-- `PlannerRuntime::CheckCurrentness`. -/
def checkCurrentness : PlanCurrentnessReport :=
  let report := state.initialReport plan
  match state.snapshot with
  | none =>
    report.note (moreSevere report.currentness .revalidationRequired) .snapshotNotAvailable
      "no fabric snapshot is currently published"
  | some snapshot =>
    match missingDependency snapshot plan with
    | some subject =>
      report.note .retired .planRetired ("dependency no longer exists: " ++ subject.toString)
    | none =>
      if state.retainedCurrentness plan = some .retired then
        report.note .retired .planRetired "the retained plan was invalidated by subject removal"
      else state.compareEvidence plan (state.noteRetained plan report)

/-! ## When a plan is current -/

/-- The runtime supports a plan: the plan is not diagnostic, all its dependencies are in the
published snapshot, the retained entry, if there is one, is not marked, and neither a classified
generation nor the publication sequence moved. -/
structure Supports : Prop where
  standard : plan.diagnosticMode = false
  published : ∃ snapshot, state.snapshot = some snapshot ∧
    ∀ subject ∈ collectPlanDependencies plan, subjectStillPresent snapshot subject = true
  retained : ∀ entry, state.retained.lookup plan.id = some entry →
    entry.currentness ≠ .retired ∧ entry.currentness ≠ .revalidationRequired
  generations : classifyEvidence plan.evidence state.currentEvidence = .current
  sequence : plan.evidence.publishSequence = state.publishSequence

variable {state plan}

theorem retainedCurrentness_ne {c : Currentness} : state.retainedCurrentness plan ≠ some c ↔
    ∀ entry, state.retained.lookup plan.id = some entry → entry.currentness ≠ c := by
  unfold retainedCurrentness
  cases state.retained.lookup plan.id <;> simp

theorem compareEvidence_current_iff {report : PlanCurrentnessReport} :
    (state.compareEvidence plan report).currentness = .current ↔
      report.currentness = .current ∧
        classifyEvidence plan.evidence state.currentEvidence = .current ∧
        plan.evidence.publishSequence = state.publishSequence := by
  have hsequence : state.currentEvidence.publishSequence = state.publishSequence := rfl
  unfold compareEvidence
  by_cases hclass : classifyEvidence plan.evidence state.currentEvidence = .current
  · by_cases hseq : plan.evidence.publishSequence = state.publishSequence
    · simp [hclass, hseq, hsequence]
    · by_cases hreport : report.currentness = .current <;>
        simp [hclass, hseq, hsequence, hreport]
  · simp [hclass]

theorem compareEvidence_changes_iff {report : PlanCurrentnessReport} :
    (state.compareEvidence plan report).changes = [] ↔ report.changes = [] ∧
      diffEvidence plan.evidence state.currentEvidence = [] := by
  unfold compareEvidence
  dsimp only
  split_ifs <;> exact List.append_eq_nil_iff

section Note

variable {report : PlanCurrentnessReport} {c : Currentness} {code : DiagnosticCode}
  {detail : String}

@[simp] theorem note_currentness : (report.note c code detail).currentness = c := rfl

@[simp] theorem note_changes : (report.note c code detail).changes ≠ [] := by
  simp [PlanCurrentnessReport.note]

theorem initialReport_currentness :
    (state.initialReport plan).currentness = .current ↔ plan.diagnosticMode = false := by
  unfold initialReport
  cases plan.diagnosticMode <;> simp

theorem initialReport_changes :
    (state.initialReport plan).changes = [] ↔ plan.diagnosticMode = false := by
  unfold initialReport
  cases plan.diagnosticMode <;> simp

theorem noteRetained_currentness : (state.noteRetained plan report).currentness = .current ↔
    report.currentness = .current ∧
      state.retainedCurrentness plan ≠ some .revalidationRequired := by
  unfold noteRetained
  split_ifs with h <;> simp [h]

theorem noteRetained_changes : (state.noteRetained plan report).changes = [] ↔
    report.changes = [] ∧ state.retainedCurrentness plan ≠ some .revalidationRequired := by
  unfold noteRetained
  split_ifs with h <;> simp [h]

end Note

theorem missingDependency_eq_none_iff {snapshot : FabricSnapshot} :
    missingDependency snapshot plan = none ↔
      ∀ subject ∈ collectPlanDependencies plan, subjectStillPresent snapshot subject = true := by
  simp [missingDependency, List.find?_eq_none]

theorem Supports.missingDependency_eq_none (h : state.Supports plan) {snapshot : FabricSnapshot}
    (hs : state.snapshot = some snapshot) :
    missingDependency snapshot plan = none := by
  obtain ⟨s, hs', hpresent⟩ := h.published
  obtain rfl := Option.some.inj (hs.symm.trans hs')
  exact missingDependency_eq_none_iff.mpr hpresent

/-- A runtime that supports a plan reaches the comparison of the evidence. -/
theorem supports_iff : state.Supports plan ↔ ∃ snapshot, state.snapshot = some snapshot ∧
    missingDependency snapshot plan = none ∧
    state.retainedCurrentness plan ≠ some .retired ∧
    (state.compareEvidence plan (state.noteRetained plan (state.initialReport plan))).currentness =
      .current := by
  simp only [compareEvidence_current_iff, noteRetained_currentness, initialReport_currentness]
  constructor
  · intro h
    obtain ⟨s, hs, _⟩ := h.published
    exact ⟨s, hs, h.missingDependency_eq_none hs,
      retainedCurrentness_ne.mpr fun e he => (h.retained e he).1,
      ⟨h.standard, retainedCurrentness_ne.mpr fun e he => (h.retained e he).2⟩, h.generations,
      h.sequence⟩
  · rintro ⟨s, hs, hfind, hretired, ⟨hstandard, hmarked⟩, hclass, hsequence⟩
    exact ⟨hstandard, ⟨s, hs, missingDependency_eq_none_iff.mp hfind⟩,
      fun e he => ⟨retainedCurrentness_ne.mp hretired e he, retainedCurrentness_ne.mp hmarked e he⟩,
      hclass, hsequence⟩

/-- **The verdict is current** exactly when the runtime supports the plan. -/
theorem checkCurrentness_current_iff :
    (state.checkCurrentness plan).currentness = .current ↔ state.Supports plan := by
  rw [supports_iff]
  unfold checkCurrentness
  cases state.snapshot with
  | none => simp
  | some snapshot =>
    dsimp only
    cases hfind : missingDependency snapshot plan with
    | some subject => simp [hfind]
    | none =>
      dsimp only
      split_ifs with hretired
      · simp [hretired]
      · simp [hfind, hretired]

/-- **No change is reported** exactly when the runtime supports the plan and the snapshot is the
one that the plan was computed from. -/
theorem checkCurrentness_changes_iff :
    (state.checkCurrentness plan).changes = [] ↔
      state.Supports plan ∧ plan.evidence.snapshot = state.currentEvidence.snapshot := by
  rw [supports_iff]
  unfold checkCurrentness
  cases state.snapshot with
  | none => simp
  | some snapshot =>
    dsimp only
    cases hfind : missingDependency snapshot plan with
    | some subject => simp [hfind]
    | none =>
      dsimp only
      split_ifs with hretired
      · simp [hretired]
      · simp only [compareEvidence_changes_iff, noteRetained_changes, initialReport_changes,
          compareEvidence_current_iff, noteRetained_currentness, initialReport_currentness,
          diffEvidence_eq_nil_iff]
        constructor
        · rintro ⟨hinit, hclass, hsnapshot, hsequence⟩
          exact ⟨⟨snapshot, rfl, hfind, hretired, hinit, hclass, hsequence⟩, hsnapshot⟩
        · rintro ⟨⟨_, _, _, _, hinit, hclass, hsequence⟩, hsnapshot⟩
          exact ⟨hinit, hclass, hsnapshot, hsequence⟩

/-- **The verdict and the changes agree** unless the runtime supports the plan on a snapshot with
another identity: the difference is then reported, and the verdict stays current. -/
theorem checkCurrentness_agrees_iff (state : RuntimeState) (plan : PathPlan) :
    ((state.checkCurrentness plan).currentness = .current ↔
        (state.checkCurrentness plan).changes = []) ↔
      (state.Supports plan → plan.evidence.snapshot = state.currentEvidence.snapshot) := by
  rw [checkCurrentness_current_iff, checkCurrentness_changes_iff]
  tauto

/-- **A plan that is not proven** is held back exactly when its mode, a missing dependency, its
retained entry or moved evidence holds it back: where the plan comes from plays no role. -/
theorem isUnproven_not_current_iff (sha : List UInt8 → Sha256Digest) {plan : PathPlan}
    (_ : IsUnproven sha plan) (state : RuntimeState) :
    (state.checkCurrentness plan).currentness ≠ .current ↔
      plan.diagnosticMode = true ∨
      (∀ snapshot, state.snapshot = some snapshot →
        ∃ subject ∈ collectPlanDependencies plan, subjectStillPresent snapshot subject = false) ∨
      (∃ entry, state.retained.lookup plan.id = some entry ∧
        (entry.currentness = .retired ∨ entry.currentness = .revalidationRequired)) ∨
      classifyEvidence plan.evidence state.currentEvidence ≠ .current ∨
      plan.evidence.publishSequence ≠ state.publishSequence := by
  rw [Ne, checkCurrentness_current_iff]
  constructor
  · intro h
    by_contra hnot
    push Not at hnot
    obtain ⟨hstandard, ⟨s, hs, hpresent⟩, hretained, hclass, hsequence⟩ := hnot
    exact h ⟨by simpa using hstandard, ⟨s, hs, fun x hx => by simpa using hpresent x hx⟩,
      hretained, hclass, hsequence⟩
  · rintro h hsupports
    rcases h with h | h | ⟨entry, he, h⟩ | h | h
    · exact absurd hsupports.standard (by simp [h])
    · obtain ⟨s, hs, hpresent⟩ := hsupports.published
      obtain ⟨x, hx, hmissing⟩ := h s hs
      exact absurd (hpresent x hx) (by simp [hmissing])
    · obtain ⟨hretired, hmarked⟩ := hsupports.retained entry he
      rcases h with h | h
      · exact hretired h
      · exact hmarked h
    · exact h hsupports.generations
    · exact h hsupports.sequence

end RuntimeState

/-! ## Two runtimes -/

/-- A hash for the runs below. -/
def constantHash : List UInt8 → Sha256Digest := fun _ => ⟨Vector.replicate 32 1⟩

/-- Two nodes joined by one link. -/
def singleLink : FabricSnapshot :=
  (FabricSnapshotBuilder.ofLinks [1, 2] [(1, 2)]).snapshotWith (by decide +kernel)
    ⟨Vector.replicate 32 1⟩

theorem isSome_records_doubleLink :
    (FabricSnapshotBuilder.ofLinks [1, 2] [(1, 2), (1, 2)]).records.toOption.isSome = true := by
  decide +kernel

/-- The same nodes joined by two links, under the same generations and another identity. -/
def doubleLink : FabricSnapshot :=
  (FabricSnapshotBuilder.ofLinks [1, 2] [(1, 2), (1, 2)]).snapshotWith isSome_records_doubleLink
    ⟨Vector.replicate 32 2⟩

/-- A runtime over a snapshot, as it is constructed. -/
def runtimeOver (snapshot : FabricSnapshot) : RuntimeState := .new {} (some snapshot) false

/-- What a new runtime plans for a request. -/
def planOver (snapshot : FabricSnapshot) (request : PlanningRequest) : PlanningResult :=
  ((runtimeOver snapshot).plan constantHash (fun _ _ _ => .notRequested) request).1

/-- The plan made of it. -/
def pathPlanOver (snapshot : FabricSnapshot) (request : PlanningRequest) : PathPlan :=
  makePathPlan constantHash request (planOver snapshot request) (.ofNat 0)

/-- A plan of one runtime is current in another one that reports a change of the snapshot. -/
theorem not_checkCurrentness_agrees_doubleLink :
    ¬ (((runtimeOver doubleLink).checkCurrentness
          (pathPlanOver singleLink (.between 1 2))).currentness = .current ↔
        ((runtimeOver doubleLink).checkCurrentness
          (pathPlanOver singleLink (.between 1 2))).changes = []) := by
  have hcurrent : ((runtimeOver doubleLink).checkCurrentness
      (pathPlanOver singleLink (.between 1 2))).currentness = .current := by decide +kernel
  have hchanges : ((runtimeOver doubleLink).checkCurrentness
      (pathPlanOver singleLink (.between 1 2))).changes.isEmpty = false := by decide +kernel
  intro h
  rw [h.mp hcurrent] at hchanges
  cases hchanges

/-- A request that waives the operational proof. -/
def waivedRequest : PlanningRequest :=
  { PlanningRequest.between 1 2 with policy := { requireOperationalProof := false } }

/-- A plan made of a result that requires revalidation is current. -/
theorem not_isUnproven_not_current_singleLink :
    ¬ ∀ plan, IsUnproven constantHash plan →
      ((runtimeOver singleLink).checkCurrentness plan).currentness ≠ .current := by
  intro h
  have hstatus : (planOver singleLink waivedRequest).status = .revalidationRequired := by
    decide +kernel
  exact h _ (.ofResult waivedRequest _ (.ofNat 0) hstatus) (by decide +kernel)

theorem isUnproven_not_current_iff_singleLink :
    (((runtimeOver singleLink).publishSnapshot (some singleLink)).checkCurrentness
      (pathPlanOver singleLink waivedRequest)).currentness ≠ .current :=
  (RuntimeState.isUnproven_not_current_iff constantHash
    (.ofResult waivedRequest _ (.ofNat 0) (by decide +kernel)) _).mpr
    (.inr (.inr (.inr (.inr (by decide +kernel)))))

end PathPlanner
