import PathPlanner.Planner.Outcome
import PathPlanner.Runtime.System

/-!
# The publication watermark

A `Plan` call compares the publication sequence with the one it captured, and publishes in a later
section. The sequence is bound into the evidence of the result, so that a later change of the inputs
is seen when the currentness of the plan is checked.

## Main definitions

* `PlannerSystem.Settled`: no change falls between a comparison and its publication
* `PlanCall.Within`: what a call carries is not newer than a publication sequence

## Main results

* `PlannerSystem.published_marked`: a publication after a change is not current, in settled runs
* `PlannerSystem.never_current_again`: a plan is not current after a change that follows its capture
-/

namespace PathPlanner

open Run

variable {sha : List UInt8 → Sha256Digest}

/-! ## Calls -/

namespace PlanCall

/-- The publication sequence that a call captured, when the call stands between its comparison and
its publication. -/
def comparedAt (entry : PlanCall) : Option PlanPublishSequence :=
  match entry.phase with
  | .compared _ => some entry.capture.publishSequence
  | _ => none

/-- What a call has returned. -/
def result? (entry : PlanCall) : Option PlanningResult :=
  match entry.phase with
  | .returned result => some result
  | _ => none

/-- The evidence of what a call has computed. -/
def evidence? (entry : PlanCall) : Option EvidenceVector :=
  match entry.phase with
  | .captured => none
  | .compared computed => some computed.result.evidence
  | .returned result => some result.evidence

/-- What a call carries is not newer than a publication sequence. -/
structure Within (sequence : PlanPublishSequence) (entry : PlanCall) : Prop where
  captured : entry.capture.publishSequence ≤ sequence
  evidence : ∀ evidence ∈ entry.evidence?, evidence.publishSequence ≤ sequence

theorem Within.mono {sequence later : PlanPublishSequence} {entry : PlanCall}
    (h : entry.Within sequence) (hle : sequence ≤ later) : entry.Within later :=
  ⟨h.captured.trans hle, fun evidence he => (h.evidence evidence he).trans hle⟩

end PlanCall

/-- The result is marked: it requires revalidation, and no candidate is current. -/
structure PlanningResult.Marked (result : PlanningResult) : Prop where
  status : result.status = .revalidationRequired
  candidates : ∀ candidate ∈ result.candidates, candidate.currentness ≠ .current

section Sections

variable (runtime : RuntimeState) (capture : PlanCapture) (request : PlanningRequest)
  (computed : ComputedPlan)

theorem comparePlan_evidence :
    (runtime.comparePlan capture computed).result.evidence = computed.result.evidence := by
  unfold RuntimeState.comparePlan
  split_ifs <;> rfl

/-- A comparison that finds the sequence changed marks the result. -/
theorem comparePlan_marked (h : runtime.publishSequence ≠ capture.publishSequence) :
    (runtime.comparePlan capture computed).result.Marked := by
  have hchanged : runtime.watermarkChanged capture computed = true := by
    unfold RuntimeState.watermarkChanged
    rw [decide_eq_true h, Bool.true_or]
  unfold RuntimeState.comparePlan
  rw [if_pos hchanged]
  refine ⟨rfl, fun candidate hc => ?_⟩
  obtain ⟨_, _, rfl⟩ := List.mem_map.mp hc
  simp

theorem publishPlan_evidence :
    (runtime.publishPlan sha capture request computed).1.evidence = computed.result.evidence := rfl

/-- A publication numbers the candidates and changes nothing else of them. -/
theorem publishPlan_candidates : ∃ generation,
    (runtime.publishPlan sha capture request computed).1.candidates =
      computed.result.candidates.map fun candidate => { candidate with
        provenance := { candidate.provenance with planningGeneration := generation } } :=
  ⟨_, rfl⟩

/-- A publication keeps the mark of a result. -/
theorem publishPlan_marked (h : computed.result.Marked) :
    (runtime.publishPlan sha capture request computed).1.Marked := by
  refine ⟨h.status, fun candidate hmem => ?_⟩
  obtain ⟨generation, heq⟩ := @publishPlan_candidates sha runtime capture request computed
  rw [heq] at hmem
  obtain ⟨c, hc, rfl⟩ := List.mem_map.mp hmem
  exact h.candidates c hc

end Sections

/-- The evidence of a computation carries the sequence that was captured. -/
theorem computePlan_publishSequence {capture : PlanCapture} {request : PlanningRequest}
    {computed : ComputedPlan} (h : computePlan sha capture request = .ok computed) :
    computed.result.evidence.publishSequence = capture.publishSequence := by
  obtain ⟨p, rfl⟩ := computePlan_eq_ok h
  exact congrArg EvidenceVector.publishSequence p.evidence_eq

namespace PlannerSystem

/-! ## Sections -/

namespace CallStep

variable {runtime : RuntimeState} {entry entry' : PlanCall} {sequence : PlanPublishSequence}

/-- A call starts within the publication sequence of its runtime. -/
theorem within_of_none (h : CallStep sha runtime none entry') :
    entry'.Within runtime.publishSequence := by
  cases h with
  | capture request authority => exact ⟨le_rfl, by simp [PlanCall.evidence?]⟩

/-- A call stays within a publication sequence, whatever the runtime has moved to. -/
theorem within (h : CallStep sha runtime (some entry) entry') (hw : entry.Within sequence) :
    entry'.Within sequence := by
  refine ⟨by cases h <;> exact hw.captured, ?_⟩
  cases h with
  | refuse request capture result h =>
    rintro _ ⟨⟩
    -- a refusal carries the captured sequence or none
    rcases (computePlan_eq_error h).1.sequence with heq | heq
    · rw [heq]
      exact Nat.zero_le _
    · exact heq.trans_le hw.captured
  | compare request capture computed h =>
    rintro _ ⟨⟩
    rw [comparePlan_evidence, computePlan_publishSequence h]
    exact hw.captured
  | publish request capture computed =>
    rintro _ ⟨⟩
    rw [publishPlan_evidence]
    exact hw.evidence _ rfl

/-- A call is compared in a runtime at the captured sequence, or its result is marked. -/
theorem marked {computed : ComputedPlan} {prior : Option PlanCall}
    (h : CallStep sha runtime prior entry') (hphase : entry'.phase = .compared computed) :
    runtime.publishSequence = entry'.capture.publishSequence ∨ computed.result.Marked := by
  cases h with
  | capture => cases hphase
  | refuse => cases hphase
  | publish => cases hphase
  | compare request capture computed h =>
    obtain rfl := PlanPhase.compared.inj hphase
    rw [or_iff_not_imp_left]
    intro hne
    exact comparePlan_marked _ _ _ hne

end CallStep

/-- What a call has returned. -/
def result? (system : PlannerSystem) (call : ℕ) : Option PlanningResult :=
  (system.calls.lookup call).bind PlanCall.result?

variable {system system' : PlannerSystem} {action : PlannerAction} {actions : List PlannerAction}
  {call : ℕ}

/-! ## Compare before publish -/

/-- A call that advances the sequence finds no `Plan` call whose comparison has found this sequence
and whose publication is still to come. -/
def Settled (system : PlannerSystem) : PlannerAction → Prop
  | .perform op => op.Advances system.runtime →
      ∀ e ∈ system.calls.entries, e.2.comparedAt ≠ some system.runtime.publishSequence
  | _ => True

instance : ∀ (system : PlannerSystem) (action : PlannerAction), Decidable (system.Settled action)
  | system, .perform op => inferInstanceAs (Decidable (op.Advances system.runtime → _))
  | _, .capture .. => isTrue trivial
  | _, .compare _ => isTrue trivial
  | _, .publish _ => isTrue trivial

/-- Every call that was compared at another sequence is marked. -/
def Marks (system : PlannerSystem) : Prop :=
  ∀ call entry, system.calls.lookup call = some entry → ∀ computed,
    entry.phase = .compared computed →
      system.runtime.publishSequence = entry.capture.publishSequence ∨ computed.result.Marked

theorem Settled.comparedAt_ne {op : RuntimeOperation} {entry : PlanCall}
    (h : system.Settled (.perform op)) (hadvance : op.Advances system.runtime)
    (hentry : system.calls.lookup call = some entry) {computed : ComputedPlan}
    (hphase : entry.phase = .compared computed) :
    system.runtime.publishSequence ≠ entry.capture.publishSequence := by
  intro heq
  apply h hadvance ⟨call, entry⟩ (AList.mem_lookup_iff.mp hentry)
  unfold PlanCall.comparedAt
  rw [hphase, heq]

/-- **The step lemma of the comparison.** -/
theorem Marks.step (hsettled : system.Settled action) (hstep : system.step sha action = some system')
    (h : system.Marks) : system'.Marks := by
  rcases step_cases hstep with ⟨op, rfl, rfl⟩ | ⟨_, c, entry, _, _, _, hcall, rfl⟩
  · intro call entry hentry computed hphase
    rw [RuntimeState.perform_publishSequence]
    split_ifs with hadvance
    · -- the sequence moves, so that no comparison has found it
      exact Or.inr ((h call entry hentry computed hphase).resolve_left
        (hsettled.comparedAt_ne hadvance hentry hphase))
    · exact h call entry hentry computed hphase
  · intro call entry' hentry computed hphase
    dsimp only at hentry ⊢
    by_cases hc : call = c
    · subst hc
      rw [AList.lookup_insert] at hentry
      obtain rfl := Option.some.inj hentry
      exact hcall.marked hphase
    · rw [AList.lookup_insert_ne hc] at hentry
      exact h call entry' hentry computed hphase

/-- **Compare before publish**: in a run of settled steps, a call that publishes at another sequence
than the captured one returns a marked result. -/
theorem published_marked (hstart : system.calls = ∅)
    (hsettled : StepsMeet (step sha) Settled system actions)
    (hrun : run (step sha) system actions = some system')
    {entry : PlanCall} (hentry : system'.calls.lookup call = some entry)
    (hmoved : system'.runtime.publishSequence ≠ entry.capture.publishSequence)
    {published : PlannerSystem} (hpublish : system'.step sha (.publish call) = some published)
    {result : PlanningResult} (hresult : published.result? call = some result) :
    result.status = .revalidationRequired ∧
      ∀ candidate ∈ result.candidates, candidate.currentness ≠ .current := by
  have hmarks : system'.Marks := hsettled.invariant (fun _ _ _ hp hs h => h.step hp hs) hrun <| by
    intro call entry hentry
    rw [hstart] at hentry
    cases hentry
  -- the section publishes what the comparison left
  unfold PlannerSystem.step at hpublish
  dsimp only at hpublish
  rw [hentry] at hpublish
  dsimp only at hpublish
  split at hpublish
  · next computed hphase =>
    obtain rfl := Option.some.inj hpublish
    have hmarked := (hmarks call entry hentry computed hphase).resolve_left hmoved
    unfold result? publishCall at hresult
    dsimp only at hresult
    rw [AList.lookup_insert] at hresult
    obtain rfl : _ = result := Option.some.inj hresult
    have h := @publishPlan_marked sha system'.runtime entry.capture entry.request computed
      hmarked
    exact ⟨h.status, h.candidates⟩
  · cases hpublish

/-- A runtime over two nodes with one link, without calls. -/
def initial : PlannerSystem := { runtime := runtimeOver singleLink }

/-- The first section of a call between the nodes. -/
def captureSection : PlannerAction := .capture 0 (.between 1 2) fun _ _ _ => .notRequested

/-- An invalidation that names nothing. -/
def emptyNotice : PlannerAction := .perform (.applyInvalidation {})

/-- The invalidation comes before the comparison. -/
def settledSystem : PlannerSystem :=
  (run (step constantHash) initial [captureSection, emptyNotice, .compare 0]).get
    (by decide +kernel)

/-- The invalidation comes between the comparison and the publication. -/
def racedSystem : PlannerSystem :=
  (run (step constantHash) initial [captureSection, .compare 0, emptyNotice]).get
    (by decide +kernel)

theorem published_marked_settledSystem : ∃ published result,
    settledSystem.step constantHash (.publish 0) = some published ∧
      published.result? 0 = some result ∧ result.status = .revalidationRequired ∧
      ∀ candidate ∈ result.candidates, candidate.currentness ≠ .current := by
  have hcall : (settledSystem.calls.lookup 0).isSome := by decide +kernel
  have hpublish : (settledSystem.step constantHash (.publish 0)).isSome := by decide +kernel
  have hresult : (((settledSystem.step constantHash (.publish 0)).get hpublish).result? 0).isSome := by
    decide +kernel +revert
  refine ⟨_, _, (Option.some_get hpublish).symm, (Option.some_get hresult).symm, ?_⟩
  apply published_marked rfl (by decide +kernel) (Option.some_get _).symm
    (Option.some_get hcall).symm (by decide +kernel +revert) (Option.some_get hpublish).symm
    (Option.some_get hresult).symm

/-- A call that an invalidation passes after its comparison publishes a current plan. -/
theorem not_published_marked_racedSystem :
    ¬ ∀ (system system' published : PlannerSystem) (actions : List PlannerAction) (call : ℕ)
        (entry : PlanCall) (result : PlanningResult), system.calls = ∅ →
      run (step constantHash) system actions = some system' →
      system'.calls.lookup call = some entry →
      system'.runtime.publishSequence ≠ entry.capture.publishSequence →
      system'.step constantHash (.publish call) = some published →
      published.result? call = some result →
      result.status = .revalidationRequired ∧
        ∀ candidate ∈ result.candidates, candidate.currentness ≠ .current := by
  intro h
  have hcall : (racedSystem.calls.lookup 0).isSome := by decide +kernel
  have hpublish : (racedSystem.step constantHash (.publish 0)).isSome := by decide +kernel
  have hresult : (((racedSystem.step constantHash (.publish 0)).get hpublish).result? 0).isSome := by
    decide +kernel +revert
  have hmarked := h initial racedSystem _ _ 0 _ _ rfl (Option.some_get _).symm
    (Option.some_get hcall).symm (by decide +kernel +revert) (Option.some_get hpublish).symm
    (Option.some_get hresult).symm
  exact absurd hmarked.1 (by decide +kernel +revert)

/-! ## After a change -/

/-- The section advances the publication sequence. -/
def Advances (system : PlannerSystem) : PlannerAction → Prop
  | .perform op => op.Advances system.runtime
  | _ => False

instance : ∀ (system : PlannerSystem) (action : PlannerAction), Decidable (system.Advances action)
  | system, .perform op => inferInstanceAs (Decidable (op.Advances system.runtime))
  | _, .capture .. => isFalse not_false
  | _, .compare _ => isFalse not_false
  | _, .publish _ => isFalse not_false

/-- The sequence moves exactly with the sections that advance it. -/
theorem step_publishSequence (hstep : system.step sha action = some system') :
    system'.runtime.publishSequence =
      if system.Advances action then PlanPublishSequence.next system.runtime.publishSequence
      else system.runtime.publishSequence := by
  rcases step_cases hstep with ⟨op, rfl, rfl⟩ | ⟨hop, _, _, _, _, _, _, rfl⟩
  · exact RuntimeState.perform_publishSequence system.runtime op
  · have hnot : ¬ system.Advances action := by
      cases action with
      | perform op => exact absurd rfl (hop op)
      | capture | compare | publish => exact not_false
    rw [if_neg hnot]

/-- A section that does not wrap the sequence around does not decrease it. -/
theorem publishSequence_le_of_step
    (hwrap : system.Advances action → system.runtime.publishSequence.value + 1 < 2 ^ 64)
    (hstep : system.step sha action = some system') :
    system.runtime.publishSequence ≤ system'.runtime.publishSequence := by
  rw [step_publishSequence hstep]
  split_ifs with hadvance
  · have hnext := PlanPublishSequence.next_value (Nat.lt_sub_of_add_lt (hwrap hadvance))
    exact (Nat.le_succ _).trans hnext.ge
  · exact le_rfl

/-- Every call is within the publication sequence. -/
def CallsWithin (system : PlannerSystem) : Prop :=
  ∀ call entry, system.calls.lookup call = some entry →
    entry.Within system.runtime.publishSequence

/-- **The step lemma of the watermark.** -/
theorem CallsWithin.step
    (hwrap : system.Advances action → system.runtime.publishSequence.value + 1 < 2 ^ 64)
    (hstep : system.step sha action = some system') (h : system.CallsWithin) :
    system'.CallsWithin := by
  have hle := publishSequence_le_of_step hwrap hstep
  rcases step_cases hstep with ⟨op, rfl, rfl⟩ | ⟨_, c, entry, _, _, _, hcall, rfl⟩
  · intro call entry hentry
    exact (h call entry hentry).mono hle
  · intro call entry' hentry
    dsimp only at hentry ⊢
    by_cases hc : call = c
    · subst hc
      rw [AList.lookup_insert] at hentry
      obtain rfl := Option.some.inj hentry
      cases hprior : system.calls.lookup call with
      | none =>
        rw [hprior] at hcall
        exact hcall.within_of_none
      | some prior =>
        rw [hprior] at hcall
        exact hcall.within (h call prior hprior)
    · rw [AList.lookup_insert_ne hc] at hentry
      exact h call entry' hentry

/-- A call within a publication sequence stays within it. -/
theorem within_of_step {sequence : PlanPublishSequence}
    (hstep : system.step sha action = some system')
    (h : ∃ entry, system.calls.lookup call = some entry ∧ entry.Within sequence) :
    ∃ entry, system'.calls.lookup call = some entry ∧ entry.Within sequence := by
  obtain ⟨prior, hprior, hwithin⟩ := h
  rcases step_cases hstep with ⟨op, rfl, rfl⟩ | ⟨_, c, entry, _, _, _, hcall, rfl⟩
  · exact ⟨prior, hprior, hwithin⟩
  · by_cases hc : call = c
    · subst hc
      rw [hprior] at hcall
      exact ⟨entry, AList.lookup_insert _, hcall.within hwithin⟩
    · exact ⟨prior, (AList.lookup_insert_ne hc).trans hprior, hwithin⟩

theorem exists_lookup_of_result? {result : PlanningResult}
    (h : system.result? call = some result) : ∃ entry, system.calls.lookup call = some entry ∧
      entry.evidence? = some result.evidence := by
  obtain ⟨entry, hentry, hresult⟩ := Option.bind_eq_some_iff.mp h
  refine ⟨entry, hentry, ?_⟩
  unfold PlanCall.result? at hresult
  split at hresult
  · next hphase =>
    obtain rfl := Option.some.inj hresult
    unfold PlanCall.evidence?
    rw [hphase]
  · cases hresult

/-- **Never current again**: a plan made of the result of a call is not current in any runtime
state after a change of the inputs that followed the capture of the call, as long as the sequence
does not wrap around. -/
theorem never_current_again (sha : List UInt8 → Sha256Digest) (limits : ResourceLimits)
    (snapshot : Option FabricSnapshot) (hasAuthority : Bool) {before after : List PlannerAction}
    {op : RuntimeOperation} {captured changed : PlannerSystem}
    (hcount : count (step sha) Advances { runtime := .new limits snapshot hasAuthority }
      (before ++ .perform op :: after) < 2 ^ 64)
    (hbefore : run (step sha) { runtime := .new limits snapshot hasAuthority } before =
      some captured)
    (hcall : (captured.calls.lookup call).isSome) (hop : op.Advances captured.runtime)
    (hafter : run (step sha) captured (.perform op :: after) = some changed)
    {result : PlanningResult} (hresult : changed.result? call = some result)
    (request : PlanningRequest) (sequence : PlanPublishSequence) :
    (changed.runtime.checkCurrentness (makePathPlan sha request result sequence)).currentness ≠
      .current := by
  have hwrap : StepsMeet (step sha)
      (fun s a => s.Advances a → s.runtime.publishSequence.value + 1 < 2 ^ 64)
      { runtime := .new limits snapshot hasAuthority } (before ++ .perform op :: after) :=
    stepsMeet_of_count (f := fun s : PlannerSystem => s.runtime.publishSequence.value)
      (fun s a s' hs ha hlt => by
        rw [step_publishSequence hs, if_pos ha]
        exact PlanPublishSequence.next_value (Nat.lt_sub_of_add_lt hlt))
      (fun s a s' hs ha => by rw [step_publishSequence hs, if_neg ha])
      ((Nat.zero_add _).trans_lt hcount)
  -- before the change, the call is within the sequence of the runtime
  have hwithin : captured.CallsWithin :=
    hwrap.of_append_left.invariant (fun _ _ _ hp hs h => h.step hp hs) hbefore <| by
      intro call entry hentry
      cases hentry
  have hchange := hwrap.of_append_right hbefore
  obtain ⟨hlt, hrest⟩ := stepsMeet_cons.mp hchange
  -- the change moves the sequence on, and it never comes back
  have hmoved : captured.runtime.publishSequence < changed.runtime.publishSequence := by
    rw [run_cons] at hafter
    have hle := (hrest _ rfl).le (fun _ _ _ hp hs => publishSequence_le_of_step hp hs) hafter
    apply lt_of_lt_of_le _ hle
    dsimp only
    rw [RuntimeState.perform_publishSequence, if_pos hop]
    exact Nat.lt_of_succ_le (PlanPublishSequence.next_value (Nat.lt_sub_of_add_lt (hlt hop))).ge
  -- the result stays within the sequence of the time before the change
  obtain ⟨prior, hprior⟩ := Option.isSome_iff_exists.mp hcall
  obtain ⟨entry, hentry, hbound⟩ := invariant_of_run (fun _ _ _ hs h => within_of_step hs h) hafter
    ⟨prior, hprior, hwithin call prior hprior⟩
  obtain ⟨entry', hentry', hevidence⟩ := exists_lookup_of_result? hresult
  obtain rfl := Option.some.inj (hentry.symm.trans hentry')
  intro hcurrent
  have heq := (RuntimeState.checkCurrentness_current_iff.mp hcurrent).sequence
  rw [makePathPlan_evidence] at heq
  exact (heq.symm.trans_le (hbound.evidence _ hevidence)).not_gt hmoved

/-- A call that has published before an invalidation. -/
def publishedSystem : PlannerSystem :=
  (run (step constantHash) initial [captureSection, .compare 0, .publish 0]).get
    (by decide +kernel)

/-- The call after an invalidation. -/
def changedSystem : PlannerSystem :=
  { publishedSystem with runtime := publishedSystem.runtime.perform (.applyInvalidation {}) }

theorem never_current_again_publishedSystem : ∃ result, changedSystem.result? 0 = some result ∧
    (changedSystem.runtime.checkCurrentness
      (makePathPlan constantHash (.between 1 2) result (.ofNat 0))).currentness ≠ .current := by
  have hresult : (changedSystem.result? 0).isSome := by decide +kernel
  have hop : (RuntimeOperation.applyInvalidation {}).Advances publishedSystem.runtime := trivial
  have hafter : run (step constantHash) publishedSystem [emptyNotice] = some changedSystem := rfl
  refine ⟨_, (Option.some_get hresult).symm, ?_⟩
  exact never_current_again constantHash {} (some singleLink) false (by decide +kernel)
    (Option.some_get _).symm (by decide +kernel) hop hafter (Option.some_get hresult).symm _ _

end PlannerSystem

end PathPlanner
