import PathPlanner.Library.ReverseIndex
import PathPlanner.Planner.Compute

/-!
# The state of a planner runtime

A `PlannerRuntime` holds the published snapshot, a publication sequence that counts the changes of
its inputs, the fabric epoch and the retained plans with a reverse index of their dependencies. Each
function here is one section under its mutex.

## Main definitions

* `RuntimeState`, `RuntimeState.new`: the members of `PlannerRuntime::Impl`
* `publishSnapshot`, `advanceEpoch`, `retain`, `applyInvalidation`: the writers
* `capturePlan`, `comparePlan`, `publishPlan`: the sections of a `Plan` call
* `planResult`, `plan`: what a `Plan` call returns, and a call that is not interleaved
* `RuntimeOperation`, `RuntimeState.perform`: a writer and its effect
-/

namespace PathPlanner

open SortedList

/-- `PlannerRuntime::Impl::RetainedPlan`. -/
structure RetainedPlan where
  plan : PathPlan
  currentness : Currentness := .current

/-- `PlannerRuntime::Impl::RequestGeneration`. -/
structure RequestGeneration where
  digest : Sha256Digest
  generation : PlanningGeneration

/-- `PlannerRuntime::Impl`; `index` is `subject_index` with `reverse_entries` and
`reverse_index_complete`. -/
structure RuntimeState where
  limits : ResourceLimits
  snapshot : Option FabricSnapshot
  hasAuthority : Bool := false
  publishSequence : PlanPublishSequence := .ofNat 0
  epoch : FabricEpoch := default
  stats : PlannerStatistics := {}
  retained : AList (fun _ : PathPlanId => RetainedPlan) := ∅
  retentionOrder : List PathPlanId := []
  index : ReverseIndex SubjectKey PathPlanId := {}
  requestGenerations : AList (fun _ : PlanningRequestId => RequestGeneration) := ∅
  requestGenerationOrder : List PlanningRequestId := []

/-- The next value of a publication sequence. -/
def PlanPublishSequence.next (sequence : PlanPublishSequence) : PlanPublishSequence :=
  .ofNat (sequence.value + 1)

theorem PlanPublishSequence.next_value {sequence : PlanPublishSequence}
    (h : sequence.value < 2 ^ 64 - 1) : sequence.next.value = sequence.value + 1 :=
  Nat.mod_eq_of_lt (by omega)

/-- The next value is greater unless the sequence wraps around. -/
theorem PlanPublishSequence.lt_next_iff {sequence : PlanPublishSequence} :
    sequence < sequence.next ↔ sequence.value < 2 ^ 64 - 1 := by
  constructor
  · intro h
    by_contra hlast
    have hvalue : sequence.value + 1 = 2 ^ 64 := by
      have := value_le_max sequence
      omega
    have hzero : sequence.next.value = 0 := by
      change (sequence.value + 1) % 2 ^ 64 = 0
      rw [hvalue, Nat.mod_self]
    have hlt : sequence.value < sequence.next.value := h
    omega
  · intro h
    exact Nat.lt_of_succ_le (next_value h).ge

namespace RuntimeState

/-- The constructor of `PlannerRuntime`. -/
def new (limits : ResourceLimits) (initialSnapshot : Option FabricSnapshot) (hasAuthority : Bool) :
    RuntimeState where
  limits := limits
  snapshot := initialSnapshot
  hasAuthority := hasAuthority
  epoch := initialSnapshot.elim default (·.generations.epoch)

/-! ## Snapshots and epochs -/

/-- `PlannerRuntime::PublishSnapshot`. -/
def publishSnapshot (state : RuntimeState) (snapshot : Option FabricSnapshot) : RuntimeState :=
  { state with
    snapshot := snapshot
    publishSequence := PlanPublishSequence.next state.publishSequence
    stats := { state.stats with snapshotsPublished := state.stats.snapshotsPublished + 1 }
    epoch := snapshot.elim state.epoch (·.generations.epoch) }

/-- The retained plans with a currentness computed from each entry. -/
def mapRetained (f : RetainedPlan → Currentness)
    (retained : AList (fun _ : PathPlanId => RetainedPlan)) :
    AList (fun _ : PathPlanId => RetainedPlan) where
  entries := retained.entries.map fun e => ⟨e.1, { e.2 with currentness := f e.2 }⟩
  nodupKeys := by
    unfold List.NodupKeys List.keys
    rw [List.map_map]
    exact retained.nodupKeys

/-- What `AdvanceEpoch` returns and leaves. -/
structure EpochAdvance where
  accepted : Bool
  reason : String
  state : RuntimeState

/-- `PlannerRuntime::AdvanceEpoch`. -/
def advanceEpoch (state : RuntimeState) (epoch : FabricEpoch) (conservativeRecovery : Bool) :
    EpochAdvance :=
  if epoch ≤ state.epoch then
    { accepted := false
      reason := "epoch " ++ epoch.toString ++ " is not greater than the current epoch " ++
        state.epoch.toString
      state := state }
  else
    { accepted := true
      reason :=
        if conservativeRecovery then
          "epoch advanced to " ++ epoch.toString ++
            " with conservative recovery: every retained plan requires revalidation"
        else "epoch advanced to " ++ epoch.toString
      state :=
        { state with
          epoch := epoch
          publishSequence := PlanPublishSequence.next state.publishSequence
          stats := { state.stats with epochsAdvanced := state.stats.epochsAdvanced + 1 }
          retained :=
            if conservativeRecovery then mapRetained (fun _ => .revalidationRequired) state.retained
            else state.retained } }

/-! ## Retention -/

/-- The loop of `Retain` that evicts the oldest plans while there is no room. -/
def makeRoom (state : RuntimeState) : List PathPlanId → RuntimeState
  | [] => { state with retentionOrder := [] }
  | victim :: order =>
    if state.retained.entries.length < state.limits.maxRetainedPlans.toNat then
      { state with retentionOrder := victim :: order }
    else
      match state.retained.lookup victim with
      | none => makeRoom state order
      | some entry =>
        makeRoom { state with
          index := state.index.drop entry.plan.id (collectPlanDependencies entry.plan)
          retained := state.retained.erase victim
          stats := { state.stats with plansRetired := state.stats.plansRetired + 1 } } order

/-- The currentness of a plan when it is retained. -/
def initialCurrentness (plan : PathPlan) : Currentness :=
  if plan.currentnessProven then .current else .revalidationRequired

/-- `PlannerRuntime::Retain`, for a plan with a valid identity. -/
def retainValid (state : RuntimeState) (plan : PathPlan) : RuntimeState :=
  if state.retained.lookup plan.id = none then
    let state := state.makeRoom state.retentionOrder
    { state with
      index := state.index.add state.limits.maxReverseDependencyEntries.toNat plan.id
        (collectPlanDependencies plan)
      retained := state.retained.insert plan.id ⟨plan, initialCurrentness plan⟩
      retentionOrder := state.retentionOrder ++ [plan.id] }
  else
    -- an entry that exists is overwritten; neither the order nor the index changes
    { state with retained := state.retained.insert plan.id ⟨plan, initialCurrentness plan⟩ }

/-- `PlannerRuntime::Retain`. -/
def retain (state : RuntimeState) (plan : PathPlan) : Bool × RuntimeState :=
  if plan.id.isValid then (true, state.retainValid plan) else (false, state)

end RuntimeState

/-! ## Invalidation -/

/-- `SubjectStillPresent`. -/
def subjectStillPresent (snapshot : FabricSnapshot) (subject : SubjectKey) : Bool :=
  match subject.asNode, subject.asLink, subject.asPort with
  | some node, _, _ => (snapshot.findNode node).isSome
  | none, some link, _ => (snapshot.findEdge link).isSome
  | none, none, some port => snapshot.nodes.any fun node => binarySearch node.ports port
  | none, none, none => false

/-- Whether a dependency of a plan is missing from a snapshot. -/
def dependencyMissing (snapshot : FabricSnapshot) (plan : PathPlan) : Bool :=
  (collectPlanDependencies plan).any fun subject => !subjectStillPresent snapshot subject

/-- `InvalidationNotice`. -/
structure InvalidationNotice where
  nodes : List NodeId := []
  links : List LinkId := []
  ports : List PortId := []
  capabilities : List CapabilityId := []
  failureDomains : List FailureDomainId := []
  conservativeAll : Bool := false

/-- The subjects that a notice names. -/
def InvalidationNotice.subjects (notice : InvalidationNotice) : List SubjectKey :=
  notice.nodes.map .forNode ++ notice.links.map .forLink ++ notice.ports.map .forPort

/-- `InvalidationReport`. -/
structure InvalidationReport where
  affected : List PathPlanId := []
  markedRevalidationRequired : List PathPlanId := []
  retired : List PathPlanId := []
  conservative : Bool := false
  retainedPlans : ℕ := 0

namespace RuntimeState

/-- Whether a notice invalidates every retained plan. -/
def isConservative (state : RuntimeState) (notice : InvalidationNotice) : Bool :=
  notice.conservativeAll || !notice.capabilities.isEmpty || !notice.failureDomains.isEmpty ||
    !state.index.complete

/-- The keys of the plans that a notice affects, sorted and without repetition. -/
def affectedKeys (state : RuntimeState) (notice : InvalidationNotice) : List PathPlanId :=
  unique (sortBy id
    (if state.isConservative notice then state.retained.keys
    else notice.subjects.flatMap state.index.bucket))

/-- The currentness that an invalidation gives to a plan. -/
def invalidatedCurrentness (snapshot : Option FabricSnapshot) (plan : PathPlan) : Currentness :=
  if snapshot.any (dependencyMissing · plan) then .retired else .revalidationRequired

/-- The body of the loop over the affected keys. -/
def invalidatePlan (current : RuntimeState × InvalidationReport) (key : PathPlanId) :
    RuntimeState × InvalidationReport :=
  let (state, report) := current
  match state.retained.lookup key with
  | none => (state, report)
  | some entry =>
    let currentness := invalidatedCurrentness state.snapshot entry.plan
    let state := { state with retained := state.retained.insert key { entry with currentness } }
    let report := { report with affected := report.affected ++ [entry.plan.id] }
    if currentness = .retired then
      ({ state with stats := { state.stats with plansRetired := state.stats.plansRetired + 1 } },
        { report with retired := report.retired ++ [entry.plan.id] })
    else
      (state, { report with
        markedRevalidationRequired := report.markedRevalidationRequired ++ [entry.plan.id] })

/-- `PlannerRuntime::ApplyInvalidation`. -/
def applyInvalidation (state : RuntimeState) (notice : InvalidationNotice) :
    RuntimeState × InvalidationReport :=
  let advanced :=
    { state with
      stats := { state.stats with invalidationsApplied := state.stats.invalidationsApplied + 1 }
      publishSequence := PlanPublishSequence.next state.publishSequence }
  let (state, report) := (state.affectedKeys notice).foldl invalidatePlan
    (advanced, { conservative := state.isConservative notice })
  (state, { report with retainedPlans := state.retained.entries.length })

/-! ## The sections of a plan call -/

/-- The first section of `Plan`; `authority` answers for the configured Path Authority. -/
def capturePlan (state : RuntimeState) (authority : PathAuthority) : PlanCapture × RuntimeState :=
  ({  limits := state.limits
      snapshot := state.snapshot
      publishSequence := state.publishSequence
      epoch := state.epoch
      authority := if state.hasAuthority then some authority else none },
    { state with stats := { state.stats with plansComputed := state.stats.plansComputed + 1 } })

/-- Whether the inputs moved since a capture. -/
def watermarkChanged (state : RuntimeState) (capture : PlanCapture) (computed : ComputedPlan) :
    Bool :=
  state.publishSequence ≠ capture.publishSequence ||
    state.snapshot.any (·.id ≠ computed.snapshot.id)

/-- The second section of `Plan`, the comparison with the publication sequence. -/
def comparePlan (state : RuntimeState) (capture : PlanCapture) (computed : ComputedPlan) :
    ComputedPlan :=
  if state.watermarkChanged capture computed then
    { computed with
      result := { computed.result with
        candidates := computed.result.candidates.map fun candidate =>
          { candidate with currentness := .revalidationRequired }
        status := .revalidationRequired
        explanations := computed.result.explanations ++ [⟨.invalidationWatermarkChanged,
          "the publication watermark changed while the plan was being computed; " ++
            "the result is not CURRENT"⟩] }
      stats := { computed.stats with
        plansPublishRejectedStale := computed.stats.plansPublishRejectedStale + 1 } }
  else computed

/-- The loop of `NextGeneration` that forgets the oldest requests. -/
def forgetRequests (limit : ℕ) :
    List PlanningRequestId → AList (fun _ : PlanningRequestId => RequestGeneration) →
      List PlanningRequestId × AList (fun _ : PlanningRequestId => RequestGeneration)
  | [], generations => ([], generations)
  | victim :: order, generations =>
    if order.length + 1 > limit then forgetRequests limit order (generations.erase victim)
    else (victim :: order, generations)

/-- `PlannerRuntime::Impl::NextGeneration`. -/
def nextGeneration (state : RuntimeState) (request : PlanningRequestId) (digest : Sha256Digest) :
    PlanningGeneration × RuntimeState :=
  match state.requestGenerations.lookup request with
  | some known =>
    if known.digest = digest then (known.generation, state)
    else
      let next := (checkedAdd known.generation (.ofNat 1)).getD known.generation
      (next, { state with
        requestGenerations := state.requestGenerations.insert request ⟨digest, next⟩ })
  | none =>
    let (order, generations) := forgetRequests state.limits.maxRetainedPlans.toNat
      (state.requestGenerationOrder ++ [request])
      (state.requestGenerations.insert request ⟨digest, .ofNat 1⟩)
    (.ofNat 1, { state with
      requestGenerations := generations
      requestGenerationOrder := order })

/-- `MergeStats`. -/
def mergeStats (target source : PlannerStatistics) : PlannerStatistics where
  plansComputed := target.plansComputed + source.plansComputed
  plansPublished := target.plansPublished + source.plansPublished
  plansPublishRejectedStale := target.plansPublishRejectedStale + source.plansPublishRejectedStale
  candidatesReturned := target.candidatesReturned + source.candidatesReturned
  statesExpanded := target.statesExpanded + source.statesExpanded
  queuePushes := target.queuePushes + source.queuePushes
  spurSearches := target.spurSearches + source.spurSearches
  snapshotsPublished := target.snapshotsPublished + source.snapshotsPublished
  epochsAdvanced := target.epochsAdvanced + source.epochsAdvanced
  invalidationsApplied := target.invalidationsApplied + source.invalidationsApplied
  plansRetired := target.plansRetired + source.plansRetired

/-- The third section of `Plan`, the publication. -/
def publishPlan (sha : List UInt8 → Sha256Digest) (state : RuntimeState) (capture : PlanCapture)
    (request : PlanningRequest) (computed : ComputedPlan) : PlanningResult × RuntimeState :=
  let provisional := makePathPlan sha request computed.result capture.publishSequence
  let (generation, state) := state.nextGeneration request.id provisional.semanticDigest
  let result := { computed.result with
    semanticDigest := provisional.semanticDigest
    planId := provisional.id
    planningGeneration := generation
    candidates := computed.result.candidates.map fun candidate =>
      { candidate with
        provenance := { candidate.provenance with planningGeneration := generation } } }
  let stats := { computed.stats with
    plansPublished := computed.stats.plansPublished + 1
    candidatesReturned := computed.stats.candidatesReturned + result.candidates.length }
  (result, { state with stats := mergeStats state.stats stats })

/-- What a `Plan` call returns, from what it captured and from the states that it is compared and
published in. -/
def planResult (sha : List UInt8 → Sha256Digest) (capture : PlanCapture)
    (request : PlanningRequest) (compared published : RuntimeState) : PlanningResult :=
  match computePlan sha capture request with
  | .error result => result
  | .ok computed => (publishPlan sha published capture request
      (comparePlan compared capture computed)).1

/-- `PlannerRuntime::Plan`, when no other call comes between its sections. -/
def plan (sha : List UInt8 → Sha256Digest) (state : RuntimeState) (authority : PathAuthority)
    (request : PlanningRequest) : PlanningResult × RuntimeState :=
  let (capture, state) := state.capturePlan authority
  match computePlan sha capture request with
  | .error result => (result, state)
  | .ok computed => state.publishPlan sha capture request (state.comparePlan capture computed)

end RuntimeState

/-! ## Operations -/

/-- A call that writes to a runtime. -/
inductive RuntimeOperation
  | publishSnapshot (snapshot : Option FabricSnapshot)
  | applyInvalidation (notice : InvalidationNotice)
  | advanceEpoch (epoch : FabricEpoch) (conservativeRecovery : Bool)
  | retain (plan : PathPlan)

/-- The state after a call. -/
def RuntimeState.perform (state : RuntimeState) : RuntimeOperation → RuntimeState
  | .publishSnapshot snapshot => state.publishSnapshot snapshot
  | .applyInvalidation notice => (state.applyInvalidation notice).1
  | .advanceEpoch epoch conservativeRecovery =>
    (state.advanceEpoch epoch conservativeRecovery).state
  | .retain plan => (state.retain plan).2

end PathPlanner
