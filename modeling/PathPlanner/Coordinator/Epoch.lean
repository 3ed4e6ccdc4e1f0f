import PathPlanner.Coordinator.Currentness
import PathPlanner.Coordinator.System
import PathPlanner.Planner.Outcome
import PathPlanner.Runtime.Terminal

/-!
# Epochs

A runtime and its coordinator keep an epoch each. The epoch of a runtime moves with an accepted
advance, and is taken from every snapshot that is published; a coordinator advances its own epoch
and passes the new one on, and a runtime that is further along refuses it.

## Main definitions

* `RuntimeOperation.KeepsEpoch`: the call does not publish a snapshot of an earlier epoch
* `RuntimeState.EpochFenced`: an epoch does not decrease, and what it fences off stays so
* `Coordinator.operation`: the call to the runtime that a section makes
* `Coordinator.AdvanceReturns`: a call of `AdvanceEpoch` in a run, from its first section to its return
* `Coordinator.Recovers`: what an accepted advance should do
* `Coordinator.AdvancesRuntime`: the runtime takes the epochs that it is handed
* `Coordinator.KeepsRecovered`: what other calls do while the notices of an advance are sent

## Main results

* `epoch_monotone`: epochs do not decrease in runs that publish no snapshot of an earlier epoch
* `Coordinator.advanceEpoch_recovers_iff`: when an advance of the epoch recovers the plans
-/

namespace PathPlanner

open Run

/-! ## The epoch of a runtime -/

/-- The call does not publish a snapshot of an earlier epoch. -/
def RuntimeOperation.KeepsEpoch (state : RuntimeState) : RuntimeOperation → Prop
  | .publishSnapshot snapshot => ∀ s ∈ snapshot, state.epoch ≤ s.generations.epoch
  | _ => True

instance (state : RuntimeState) : (op : RuntimeOperation) → Decidable (op.KeepsEpoch state)
  | .publishSnapshot snapshot =>
    inferInstanceAs (Decidable (∀ s ∈ snapshot, state.epoch ≤ s.generations.epoch))
  | .applyInvalidation _ => isTrue trivial
  | .advanceEpoch _ _ => isTrue trivial
  | .retain _ => isTrue trivial

namespace RuntimeState

variable {sha : List UInt8 → Sha256Digest} {state state' : RuntimeState} {op : RuntimeOperation}

/-- A call decreases the epoch exactly when it publishes a snapshot of an earlier one. -/
theorem epoch_le_perform_iff : state.epoch ≤ (state.perform op).epoch ↔ op.KeepsEpoch state := by
  rw [perform_epoch]
  cases op with
  | publishSnapshot snapshot =>
    cases snapshot with
    | none => exact iff_of_true le_rfl nofun
    | some snapshot => simp [RuntimeOperation.KeepsEpoch]
  | applyInvalidation notice => exact iff_of_true le_rfl trivial
  | advanceEpoch epoch conservativeRecovery => exact iff_of_true (le_max_left _ _) trivial
  | retain plan => exact iff_of_true le_rfl trivial

/-- The epoch has not decreased, and a plan call refuses every request that is bound to an epoch
that the first state had passed. -/
structure EpochFenced (sha : List UInt8 → Sha256Digest) (state state' : RuntimeState) : Prop where
  epoch_le : state.epoch ≤ state'.epoch
  refused : ∀ request : PlanningRequest, request.authority.epochBound = true →
    request.authority.coordinatorEpoch.value < state.epoch.value → ∀ authority, ∃ result,
      computePlan sha (state'.capturePlan authority).1 request = .error result

/-- A request that is fenced off is refused. -/
theorem exists_error_of_isFenced {capture : PlanCapture} {request : PlanningRequest}
    (h : isFenced request capture.epoch = true) :
    ∃ result, computePlan sha capture request = .error result := by
  cases hcompute : computePlan sha capture request with
  | error result => exact ⟨result, rfl⟩
  | ok computed =>
    obtain ⟨p, -⟩ := computePlan_eq_ok hcompute
    have hcheck := p.checked
    unfold checkRequest at hcheck
    split at hcheck
    · cases hcheck
    · rw [if_pos h] at hcheck
      split_ifs at hcheck

theorem EpochFenced.of_le (h : state.epoch ≤ state'.epoch) : EpochFenced sha state state' where
  epoch_le := h
  refused := by
    intro request hbound hpast authority
    apply exists_error_of_isFenced
    unfold isFenced
    rw [hbound, Bool.true_and, bne_iff_ne]
    exact (hpast.trans_le h).ne

end RuntimeState

/-- The section does not publish a snapshot of an earlier epoch. -/
def PlannerSystem.KeepsEpoch (system : PlannerSystem) : PlannerAction → Prop
  | .perform op => op.KeepsEpoch system.runtime
  | _ => True

/-! ## The runtime of a coordinator -/

namespace Coordinator

variable {sha : List UInt8 → Sha256Digest} {codec : PayloadCodec} {c c' : Coordinator}
  {action : CoordinatorAction}

/-- The call to the runtime that a section makes. -/
def operation (c : Coordinator) : CoordinatorAction → Option RuntimeOperation
  | .proceed index => c.sessions[index]?.bind fun session =>
      match session.activity with
      | .retaining plan => some (.retain plan)
      | _ => none
  | .finishCall index => c.calls[index]?.bind fun
      | .advanceRuntime epoch _ => some (.advanceEpoch epoch true)
      | .publishRuntime snapshot => some (.publishSnapshot snapshot)
      | .notifyFence _ _ => none
  | .runtime op => some op
  | _ => none

/-- **The runtime of a coordinator** changes by the calls that its sections make. -/
theorem step_runtime (h : c.step sha codec action = some c') : c'.runtime = c.runtime ∨
    ∃ op ∈ c.operation action, c'.runtime = c.runtime.perform op := by
  cases change_of_step h with
  | @retain index session hs plan hactivity activity hquiet =>
    exact Or.inr ⟨.retain plan, by simp [operation, hs, hactivity], rfl⟩
  | @advanceRuntime index epoch notices hcall calls =>
    exact Or.inr ⟨.advanceEpoch epoch true, by simp [operation, hcall], rfl⟩
  | @publishRuntime index snapshot hcall calls =>
    exact Or.inr ⟨.publishSnapshot snapshot, by simp [operation, hcall], rfl⟩
  | runtime op => exact Or.inr ⟨op, rfl, rfl⟩
  | dispatch =>
    unfold dispatch
    split <;> exact Or.inl rfl
  | _ => exact Or.inl rfl

/-- The section does not publish a snapshot of an earlier epoch. -/
def KeepsEpoch (c : Coordinator) (action : CoordinatorAction) : Prop :=
  ∀ op ∈ c.operation action, op.KeepsEpoch c.runtime

instance (c : Coordinator) (action : CoordinatorAction) : Decidable (c.KeepsEpoch action) :=
  inferInstanceAs (Decidable (∀ op ∈ c.operation action, op.KeepsEpoch c.runtime))

theorem epoch_le_of_step (hkeeps : c.KeepsEpoch action) (h : c.step sha codec action = some c') :
    c.runtime.epoch ≤ c'.runtime.epoch := by
  rcases step_runtime h with heq | ⟨op, hop, heq⟩
  · exact heq ▸ le_rfl
  · rw [heq]
    exact RuntimeState.epoch_le_perform_iff.mpr (hkeeps op hop)

end Coordinator

theorem PlannerSystem.epoch_le_of_step {sha : List UInt8 → Sha256Digest}
    {system system' : PlannerSystem} {action : PlannerAction} (hkeeps : system.KeepsEpoch action)
    (h : system.step sha action = some system') : system.runtime.epoch ≤ system'.runtime.epoch := by
  rcases step_cases h with ⟨op, rfl, rfl⟩ | ⟨_, _, _, _, _, _, _, rfl⟩
  · exact RuntimeState.epoch_le_perform_iff.mpr hkeeps
  · exact le_rfl

/-- **Epochs are fenced monotonically** in runs that publish no snapshot of an earlier epoch, by a
runtime and by the runtime of a coordinator. -/
theorem epoch_monotone (sha : List UInt8 → Sha256Digest) (codec : PayloadCodec) :
    (∀ (system system' : PlannerSystem) (actions : List PlannerAction),
      StepsMeet (PlannerSystem.step sha) PlannerSystem.KeepsEpoch system actions →
      run (PlannerSystem.step sha) system actions = some system' →
      RuntimeState.EpochFenced sha system.runtime system'.runtime) ∧
    (∀ (c c' : Coordinator) (actions : List CoordinatorAction),
      StepsMeet (Coordinator.step sha codec) Coordinator.KeepsEpoch c actions →
      run (Coordinator.step sha codec) c actions = some c' →
      RuntimeState.EpochFenced sha c.runtime c'.runtime) := by
  constructor
  · intro system system' actions hkeeps hrun
    exact .of_le (hkeeps.le (f := fun s : PlannerSystem => s.runtime.epoch)
      (fun _ _ _ hk hs => PlannerSystem.epoch_le_of_step hk hs) hrun)
  · intro c c' actions hkeeps hrun
    exact .of_le (hkeeps.le (f := fun s : Coordinator => s.runtime.epoch)
      (fun _ _ _ hk hs => Coordinator.epoch_le_of_step hk hs) hrun)

/-- The codec of a coordinator that receives no payload. -/
def emptyCodec : PayloadCodec where
  decodeHello := fun _ => .error (.malformed, "")
  decodeQuery := fun _ => .error (.malformed, "")
  decodeRequest := fun _ _ => .error (.malformed, "")
  decodeResult := fun _ _ => .error (.malformed, "")

/-- One link, published at an epoch. -/
def linkAtEpoch (epoch : FabricEpoch) : FabricSnapshotBuilder :=
  (FabricSnapshotBuilder.ofLinks [1, 2] [(1, 2)]).setGenerations { epoch }

/-- The snapshot of one link at a later epoch. -/
def laterLink : FabricSnapshot :=
  (linkAtEpoch (.ofNat 5)).snapshotWith (by decide +kernel) ⟨Vector.replicate 32 4⟩

/-- The snapshot of one link at an epoch that is later still. -/
def latestLink : FabricSnapshot :=
  (linkAtEpoch (.ofNat 7)).snapshotWith (by decide +kernel) ⟨Vector.replicate 32 5⟩

namespace Coordinator

/-- A coordinator whose initial snapshot is of a later epoch than the coordinator. -/
def laterCoordinator : Coordinator := .new {} (some laterLink) (.ofNat 1)

/-- The epoch is advanced, and then a snapshot of a later epoch is published. -/
def advanceAndPublish : List CoordinatorAction :=
  [.advanceEpoch (.ofNat 6), .finishCall 0, .publishSnapshot (some latestLink) (.ofNat 7),
    .finishCall 0]

/-- The coordinator after both calls. -/
def latestCoordinator : Coordinator :=
  (run (step constantHash emptyCodec) laterCoordinator advanceAndPublish).get (by decide)

end Coordinator

/-- A request that is bound to an epoch before that of the first snapshot. -/
def pastRequest : PlanningRequest :=
  { PlanningRequest.between 1 2 with
    authority := { epochBound := true, coordinatorEpoch := .ofNat 3 } }

theorem epoch_monotone_latestCoordinator :
    Coordinator.laterCoordinator.runtime.epoch < Coordinator.latestCoordinator.runtime.epoch ∧
      ∃ result, computePlan constantHash
        (Coordinator.latestCoordinator.runtime.capturePlan fun _ _ _ => .validated).1 pastRequest =
          .error result := by
  have hrun : run (Coordinator.step constantHash emptyCodec) Coordinator.laterCoordinator
      Coordinator.advanceAndPublish = some Coordinator.latestCoordinator := (Option.some_get _).symm
  have hfenced := (epoch_monotone constantHash emptyCodec).2 Coordinator.laterCoordinator
    Coordinator.latestCoordinator Coordinator.advanceAndPublish (by decide) hrun
  refine ⟨hfenced.epoch_le.lt_of_ne (by decide), ?_⟩
  exact hfenced.refused pastRequest rfl (by decide) _

/-- The epoch of a runtime decreases when the snapshot of an earlier epoch is published. -/
theorem not_epoch_monotone_publishSnapshot :
    ¬ ∀ (system system' : PlannerSystem) (actions : List PlannerAction),
      run (PlannerSystem.step constantHash) system actions = some system' →
      system.runtime.epoch ≤ system'.runtime.epoch := by
  intro h
  have hle := h { runtime := (runtimeOver singleLink).perform (.advanceEpoch (.ofNat 5) true) } _
    [.perform (.publishSnapshot (some singleLink))] rfl
  revert hle
  decide +kernel

/-! ## Advancing the epoch of a coordinator -/

/-- The call keeps what an advance to an epoch has recovered: it publishes no snapshot of an earlier
epoch, and it does not retain a plan as current that was retained before. -/
def RuntimeOperation.KeepsRecovered (before : RuntimeState) (epoch : FabricEpoch) :
    RuntimeOperation → Prop
  | .publishSnapshot snapshot => ∀ s ∈ snapshot, epoch ≤ s.generations.epoch
  | .retain plan =>
    plan.id.isValid → plan.currentnessProven → before.retained.lookup plan.id = none
  | _ => True

instance (before : RuntimeState) (epoch : FabricEpoch) :
    (op : RuntimeOperation) → Decidable (op.KeepsRecovered before epoch)
  | .publishSnapshot snapshot =>
    inferInstanceAs (Decidable (∀ s ∈ snapshot, epoch ≤ s.generations.epoch))
  | .retain plan => inferInstanceAs (Decidable (plan.id.isValid = true →
      plan.currentnessProven = true → before.retained.lookup plan.id = none))
  | .applyInvalidation _ => isTrue trivial
  | .advanceEpoch _ _ => isTrue trivial

namespace RuntimeState

variable {before state : RuntimeState} {op : RuntimeOperation} {epoch : FabricEpoch}

/-- An entry after a plan is retained: an earlier one, or that of the plan. -/
theorem lookup_retain {plan : PathPlan} {key : PathPlanId} {entry : RetainedPlan}
    (h : (state.retain plan).2.retained.lookup key = some entry) :
    state.retained.lookup key = some entry ∨
      plan.id.isValid = true ∧ key = plan.id ∧ entry = ⟨plan, initialCurrentness plan⟩ := by
  by_cases hkey : plan.id.isValid = true → key ≠ plan.id
  · obtain ⟨_, retained, _, _, heq, hlookup⟩ := state.retain_spec plan
    rw [heq] at h
    rcases hlookup key hkey with hnone | hsame
    · rw [hnone] at h
      cases h
    · exact Or.inl (hsame.symm.trans h)
  · push Not at hkey
    obtain ⟨hvalid, rfl⟩ := hkey
    refine Or.inr ⟨hvalid, rfl, Option.some.inj (h.symm.trans ?_)⟩
    unfold retain retainValid
    rw [if_pos hvalid]
    split_ifs <;> exact AList.lookup_insert _

/-- An epoch that has been reached is not left again. -/
theorem le_epoch_perform (hkeeps : op.KeepsRecovered before epoch) (h : epoch ≤ state.epoch) :
    epoch ≤ (state.perform op).epoch := by
  rw [perform_epoch]
  cases op with
  | publishSnapshot snapshot =>
    cases snapshot with
    | none => exact h
    | some snapshot => exact hkeeps snapshot rfl
  | applyInvalidation notice => exact h
  | advanceEpoch later conservativeRecovery => exact h.trans (le_max_left _ _)
  | retain plan => exact h

/-- **No call makes a plan current** except by retaining it. -/
theorem not_current_perform (hkeeps : op.KeepsRecovered before epoch)
    (h : ∀ key entry, before.retained.lookup key = some entry →
      ∀ entry', state.retained.lookup key = some entry' → entry'.currentness ≠ .current)
    {key : PathPlanId} {entry entry' : RetainedPlan}
    (hentry : before.retained.lookup key = some entry)
    (hentry' : (state.perform op).retained.lookup key = some entry') :
    entry'.currentness ≠ .current := by
  have hold := h key entry hentry
  cases op with
  | publishSnapshot snapshot => exact hold entry' hentry'
  | applyInvalidation notice =>
    obtain ⟨_, retained, heq, hlookup, _⟩ := state.applyInvalidation_spec notice
    change (state.applyInvalidation notice).1.retained.lookup key = _ at hentry'
    rw [heq] at hentry'
    obtain ⟨old, hfound, rfl⟩ := Option.map_eq_some_iff.mp ((hlookup key).symm.trans hentry')
    split_ifs
    · change invalidatedCurrentness state.snapshot old.plan ≠ .current
      unfold invalidatedCurrentness
      split_ifs <;> exact nofun
    · exact hold old hfound
  | advanceEpoch later conservativeRecovery =>
    rcases lt_or_ge state.epoch later with hlt | hle
    · obtain ⟨_, heq⟩ := perform_advanceEpoch_of_lt hlt conservativeRecovery
      rw [heq] at hentry'
      cases conservativeRecovery with
      | false => exact hold entry' hentry'
      | true =>
        dsimp only at hentry'
        rw [if_pos rfl, lookup_mapRetained] at hentry'
        obtain ⟨old, -, rfl⟩ := Option.map_eq_some_iff.mp hentry'
        exact nofun
    · rw [perform_advanceEpoch_of_le hle] at hentry'
      exact hold entry' hentry'
  | retain plan =>
    rcases lookup_retain hentry' with hfound | ⟨hvalid, rfl, rfl⟩
    · exact hold entry' hfound
    · -- a plan that was retained before is not retained as current
      change initialCurrentness plan ≠ .current
      unfold initialCurrentness
      split_ifs with hproven
      · rw [hkeeps hvalid hproven] at hentry
        cases hentry
      · exact nofun

end RuntimeState

namespace Coordinator

variable {sha : List UInt8 → Sha256Digest} {codec : PayloadCodec}
  {start c last recovered c' : Coordinator} {action : CoordinatorAction}
  {actions sending : List CoordinatorAction} {epoch : FabricEpoch}

/-- In a run a call of `AdvanceEpoch` is accepted in `c`. Its second section, which calls the runtime,
is taken from `last` and leads to `recovered`; the notices are then sent to the workers, and the call
returns in `c'`. Sections of other calls come between. -/
def AdvanceReturns (sha : List UInt8 → Sha256Digest) (codec : PayloadCodec) (start : Coordinator)
    (actions : List CoordinatorAction) (epoch : FabricEpoch) (c last recovered : Coordinator)
    (sending : List CoordinatorAction) (c' : Coordinator) : Prop :=
  ∃ before between after index accepted notices,
    actions = before ++ .advanceEpoch epoch :: (between ++ .finishCall index :: (sending ++ after)) ∧
    run (step sha codec) start before = some c ∧
    c.advanceEpoch epoch = .ok accepted ∧
    run (step sha codec) accepted between = some last ∧
    last.calls[index]? = some (.advanceRuntime epoch notices) ∧
    last.step sha codec (.finishCall index) = some recovered ∧
    run (step sha codec) recovered sending = some c'

/-- The epoch and the publication sequence of the runtime have moved on, and no plan that was
retained is current. -/
structure Recovers (c c' : Coordinator) (epoch : FabricEpoch) : Prop where
  epoch : epoch ≤ c'.runtime.epoch
  sequence : c.runtime.publishSequence < c'.runtime.publishSequence
  retained : ∀ key entry, c.runtime.retained.lookup key = some entry →
    ∀ entry', c'.runtime.retained.lookup key = some entry' → entry'.currentness ≠ .current

/-- The epoch that the second section of `AdvanceEpoch` hands to the runtime. -/
def handedEpoch (c : Coordinator) : CoordinatorAction → Option FabricEpoch
  | .finishCall index => c.calls[index]?.bind fun
      | .advanceRuntime epoch _ => some epoch
      | _ => none
  | _ => none

/-- The publication sequence does not wrap around, and an epoch that is handed to the runtime is
greater than the one that the runtime is at. -/
def AdvancesRuntime (c : Coordinator) (action : CoordinatorAction) : Prop :=
  (∀ op ∈ c.operation action, op.Advances c.runtime →
    c.runtime.publishSequence.value < 2 ^ 64 - 1) ∧
  ∀ epoch ∈ c.handedEpoch action, c.runtime.epoch < epoch

instance (c : Coordinator) (action : CoordinatorAction) : Decidable (c.AdvancesRuntime action) :=
  inferInstanceAs (Decidable ((∀ op ∈ c.operation action, _) ∧ _))

/-- The section keeps what an advance has recovered of the plans of `before`. -/
def KeepsRecovered (before : Coordinator) (epoch : FabricEpoch) (c : Coordinator)
    (action : CoordinatorAction) : Prop :=
  ∀ op ∈ c.operation action, op.KeepsRecovered before.runtime epoch

instance (before : Coordinator) (epoch : FabricEpoch) (c : Coordinator)
    (action : CoordinatorAction) : Decidable (KeepsRecovered before epoch c action) :=
  inferInstanceAs (Decidable (∀ op ∈ c.operation action, op.KeepsRecovered before.runtime epoch))

/-- The first section of an accepted advance leaves the runtime alone. -/
theorem advanceEpoch_runtime (h : c.advanceEpoch epoch = .ok c') : c'.runtime = c.runtime := by
  unfold advanceEpoch at h
  split_ifs at h
  rw [← Except.ok.inj h]

/-- **The publication sequence of a runtime** does not decrease while it does not wrap around. -/
theorem publishSequence_le_of_step (hadvances : c.AdvancesRuntime action)
    (h : c.step sha codec action = some c') :
    c.runtime.publishSequence ≤ c'.runtime.publishSequence := by
  rcases step_runtime h with heq | ⟨op, hop, heq⟩
  · exact heq ▸ le_rfl
  · rw [heq, RuntimeState.perform_publishSequence]
    split_ifs with hadvance
    · exact (PlanPublishSequence.lt_next_iff.mpr (hadvances.1 op hop hadvance)).le
    · exact le_rfl

/-- An advance that the runtime accepts leaves no retained plan current. -/
theorem recovers_of_lt (hruntime : c'.runtime = last.runtime.perform (.advanceEpoch epoch true))
    (hlt : last.runtime.epoch < epoch)
    (hsequence : c.runtime.publishSequence <
      PlanPublishSequence.next last.runtime.publishSequence) : c.Recovers c' epoch := by
  obtain ⟨stats, heq⟩ := RuntimeState.perform_advanceEpoch_of_lt hlt true
  refine ⟨?_, ?_, fun key entry _ entry' hentry' => ?_⟩
  · rw [hruntime, RuntimeState.perform_epoch]
    exact le_max_right _ _
  · rw [hruntime, heq]
    exact hsequence
  · rw [hruntime, heq] at hentry'
    dsimp only at hentry'
    rw [if_pos rfl, RuntimeState.lookup_mapRetained] at hentry'
    obtain ⟨old, -, rfl⟩ := Option.map_eq_some_iff.mp hentry'
    exact nofun

/-- An advance that the runtime refuses recovers nothing. -/
theorem recovers_iff_of_le (hruntime : c'.runtime = last.runtime.perform (.advanceEpoch epoch true))
    (hle : epoch ≤ last.runtime.epoch) : c.Recovers c' epoch ↔ c.Recovers last epoch := by
  rw [RuntimeState.perform_advanceEpoch_of_le hle] at hruntime
  constructor
  · rintro ⟨hepoch, hsequence, hretained⟩
    exact ⟨hruntime ▸ hepoch, hruntime ▸ hsequence, hruntime ▸ hretained⟩
  · rintro ⟨hepoch, hsequence, hretained⟩
    exact ⟨hruntime ▸ hepoch, hruntime ▸ hsequence, hruntime ▸ hretained⟩

/-- **The step lemma**: what has been recovered stays recovered. -/
theorem Recovers.step (h : c.Recovers last epoch) (hkeeps : KeepsRecovered c epoch last action)
    (hadvances : last.AdvancesRuntime action) (hstep : last.step sha codec action = some c') :
    c.Recovers c' epoch := by
  have hsequence := h.sequence.trans_le (publishSequence_le_of_step hadvances hstep)
  rcases step_runtime hstep with heq | ⟨op, hop, heq⟩
  · exact ⟨heq ▸ h.epoch, hsequence, heq ▸ h.retained⟩
  · refine ⟨?_, hsequence, fun key entry hentry entry' hentry' => ?_⟩
    · rw [heq]
      exact RuntimeState.le_epoch_perform (hkeeps op hop) h.epoch
    · rw [heq] at hentry'
      exact RuntimeState.not_current_perform (hkeeps op hop) h.retained hentry hentry'

/-- **An accepted advance** has recovered the plans after its second section exactly when the runtime
accepts it too, without a wrap of the publication sequence since the call began, or sections of other
calls have recovered them. In a run whose steps all advance the runtime, and keep what is recovered
while the notices are sent, it has recovered them when it returns. -/
theorem advanceEpoch_recovers_iff
    (hcall : AdvanceReturns sha codec start actions epoch c last recovered sending c') :
    (c.Recovers recovered epoch ↔ c.Recovers last epoch ∨ last.runtime.epoch < epoch ∧
      c.runtime.publishSequence < PlanPublishSequence.next last.runtime.publishSequence) ∧
    (StepsMeet (step sha codec) AdvancesRuntime start actions →
      StepsMeet (step sha codec) (KeepsRecovered c epoch) recovered sending →
      c.Recovers c' epoch) := by
  obtain ⟨before, between, after, index, accepted, notices, rfl, hbefore, haccepted, hbetween, hrest,
    hsecond, hsending⟩ := hcall
  have hruntime : recovered.runtime = last.runtime.perform (.advanceEpoch epoch true) := by
    obtain ⟨rest, hfound, rfl⟩ := Option.map_eq_some_iff.mp hsecond
    obtain rfl := Option.some.inj (hrest.symm.trans hfound)
    rfl
  constructor
  · rcases lt_or_ge last.runtime.epoch epoch with hlt | hle
    · constructor
      · intro hrecovers
        obtain ⟨stats, heq⟩ := RuntimeState.perform_advanceEpoch_of_lt hlt true
        have hsequence := hrecovers.sequence
        rw [hruntime, heq] at hsequence
        exact Or.inr ⟨hlt, hsequence⟩
      · rintro (hrecovers | ⟨-, hsequence⟩)
        · exact absurd hlt (not_lt.mpr hrecovers.epoch)
        · exact recovers_of_lt hruntime hlt hsequence
    · rw [recovers_iff_of_le hruntime hle]
      exact ⟨Or.inl, fun h => h.resolve_right fun hlt => absurd hlt.1 (not_lt.mpr hle)⟩
  · intro hmeets hkeeps
    have hfirst : c.step sha codec (.advanceEpoch epoch) = some accepted := by
      unfold step
      dsimp only
      rw [haccepted]
    have hsections := (stepsMeet_cons.mp (hmeets.of_append_right hbefore)).2 accepted hfirst
    obtain ⟨hlast, hrecovered⟩ := stepsMeet_cons.mp (hsections.of_append_right hbetween)
    have hlt : last.runtime.epoch < epoch := hlast.2 epoch (by simp [handedEpoch, hrest])
    have hbound := hlast.1 (.advanceEpoch epoch true) (by simp [operation, hrest]) hlt
    -- the sections between do not decrease the sequence
    have hsequence := calc c.runtime.publishSequence
        = accepted.runtime.publishSequence := by rw [advanceEpoch_runtime haccepted]
      _ ≤ last.runtime.publishSequence :=
        hsections.of_append_left.le (f := fun c : Coordinator => c.runtime.publishSequence)
          (fun _ _ _ hadvances hs => publishSequence_le_of_step hadvances hs) hbetween
      _ < PlanPublishSequence.next last.runtime.publishSequence :=
        PlanPublishSequence.lt_next_iff.mpr hbound
    have hadvances := (hrecovered recovered hsecond).of_append_left
    exact (hkeeps.and hadvances).invariant (I := fun t => c.Recovers t epoch)
      (fun _ _ _ hmeets hs h => h.step hmeets.1 hmeets.2 hs) hsending
      (recovers_of_lt hruntime hlt hsequence)

/-- A plan is retained and the epoch is advanced; an invalidation comes between the two sections, and
another plan is retained while the notices are sent. -/
def advanceAround : List CoordinatorAction :=
  [.runtime (.retain (PlannerSystem.localPlan 1)), .advanceEpoch (.ofNat 2),
    .runtime (.applyInvalidation {}), .finishCall 0, .runtime (.retain (PlannerSystem.localPlan 2))]

/-- The coordinator after the first sections of the run. -/
def advancedBy (count : ℕ) : Option Coordinator :=
  run (step constantHash emptyCodec) linkCoordinator (advanceAround.take count)

theorem advanceEpoch_recovers_iff_advanceAround : ∃ c ∈ advancedBy 1, ∃ c' ∈ advancedBy 5,
    c.Recovers c' (.ofNat 2) ∧
      (c.runtime.retained.lookup (.tagged 0 1)).map (·.currentness) = some .current ∧
      (c'.runtime.retained.lookup (.tagged 0 1)).map (·.currentness) =
        some .revalidationRequired := by
  have hc : (advancedBy 1).isSome := by decide
  have hlast : (advancedBy 3).isSome := by decide
  have hrecovered : (advancedBy 4).isSome := by decide
  have hc' : (advancedBy 5).isSome := by decide
  refine ⟨_, (Option.some_get hc).symm, _, (Option.some_get hc').symm, ?_, by decide +revert,
    by decide +revert⟩
  refine (@advanceEpoch_recovers_iff constantHash emptyCodec linkCoordinator _
    ((advancedBy 3).get hlast) ((advancedBy 4).get hrecovered) _ advanceAround
    [.runtime (.retain (PlannerSystem.localPlan 2))] (.ofNat 2) ?_).2 (by decide)
    (by decide +revert)
  exact ⟨[.runtime (.retain (PlannerSystem.localPlan 1))], [.runtime (.applyInvalidation {})], [], 0,
    _, _, rfl, rfl, rfl, rfl, rfl, rfl, rfl⟩

/-- The runtime of a coordinator that starts behind its snapshot refuses the advance. -/
theorem not_advanceEpoch_recovers_laterCoordinator :
    ¬ ∀ (actions sending : List CoordinatorAction) (epoch : FabricEpoch)
      (c last recovered c' : Coordinator),
      AdvanceReturns constantHash emptyCodec laterCoordinator actions epoch c last recovered sending
        c' → c.Recovers c' epoch := by
  intro h
  have hsequence := (h [.advanceEpoch (.ofNat 2), .finishCall 0] [] (.ofNat 2) laterCoordinator _ _ _
    ⟨[], [], [], 0, _, _, rfl, rfl, rfl, rfl, rfl, rfl, rfl⟩).sequence
  revert hsequence
  decide +kernel

end Coordinator

end PathPlanner
