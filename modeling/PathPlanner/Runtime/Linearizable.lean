import PathPlanner.Runtime.Watermark

/-!
# Plan calls are atomic

A `Plan` call holds the mutex three times and computes in between without it. A call that is not
marked nevertheless returns what an uninterrupted call returns in the state that it is compared in;
only the planning generation is given later, by the publication.

## Main definitions

* `PlanningResult.withGeneration`: a result under another planning generation
* `PlannerSystem.Explained`: how the phase of a call has come about in a run

## Main results

* `RuntimeState.publishPlan_of_capture`: a publication of what was computed in an earlier state
* `PlannerSystem.Explained.All.step`: the step lemma
* `PlannerSystem.plan_linearizable`: **what a call returns** is marked, or the answer of one state
-/

namespace PathPlanner

open Run

variable {sha : List UInt8 → Sha256Digest}

/-- The result under another planning generation, which its candidates carry as well. -/
def PlanningResult.withGeneration (result : PlanningResult) (generation : PlanningGeneration) :
    PlanningResult :=
  { result with
    planningGeneration := generation
    candidates := result.candidates.map fun candidate => { candidate with
      provenance := { candidate.provenance with planningGeneration := generation } } }

/-! ## A call and its state -/

namespace RuntimeState

variable {state state' : RuntimeState} {authority : PathAuthority} {capture : PlanCapture}
  {request : PlanningRequest} {computed : ComputedPlan}

/-- A state that offers what was captured is not found to have moved. -/
theorem comparePlan_of_capture (hcapture : capture = (state.capturePlan authority).1)
    (hcompute : computePlan sha capture request = .ok computed) :
    state.comparePlan capture computed = computed := by
  obtain ⟨passes, rfl⟩ := computePlan_eq_ok hcompute
  have hsnapshot : state.snapshot = some passes.snapshot := by
    rw [← passes.snapshot_eq, hcapture]
    rfl
  have hsequence : capture.publishSequence = state.publishSequence := by
    rw [hcapture]
    rfl
  unfold comparePlan
  apply if_neg
  unfold watermarkChanged
  -- neither the sequence nor the identity of the snapshot differs
  simp [hsnapshot, hsequence]

/-- Publications of one computation differ in the generation alone. -/
theorem publishPlan_withGeneration (state state' : RuntimeState) :
    (state'.publishPlan sha capture request computed).1 =
      (state.publishPlan sha capture request computed).1.withGeneration
        (state'.publishPlan sha capture request computed).1.planningGeneration := by
  unfold publishPlan PlanningResult.withGeneration
  dsimp only
  rw [List.map_map]
  rfl

/-- The uninterrupted call, when it is published. -/
theorem plan_of_ok (hcapture : capture = (state.capturePlan authority).1)
    (hcompute : computePlan sha capture request = .ok computed) :
    state.plan sha authority request = (state.capturePlan authority).2.publishPlan sha capture request
      ((state.capturePlan authority).2.comparePlan capture computed) := by
  unfold plan
  subst hcapture
  cases hsection : state.capturePlan authority with
  | mk capture counted =>
    rw [hsection] at hcompute
    dsimp only at hcompute ⊢
    rw [hcompute]

/-- **A publication** of what was computed from a state returns what the uninterrupted call returns
in that state, apart from the generation. -/
theorem publishPlan_of_capture (hcapture : capture = (state.capturePlan authority).1)
    (hcompute : computePlan sha capture request = .ok computed) (published : RuntimeState) :
    (published.publishPlan sha capture request computed).1 =
      (state.plan sha authority request).1.withGeneration
        (published.publishPlan sha capture request computed).1.planningGeneration := by
  -- a capture changes only the statistics, so the state after it offers the same
  have hagain : capture = ((state.capturePlan authority).2.capturePlan authority).1 := hcapture
  have hcompare : (state.capturePlan authority).2.comparePlan capture computed = computed :=
    comparePlan_of_capture hagain hcompute
  have hplan : (state.plan sha authority request).1 =
      ((state.capturePlan authority).2.publishPlan sha capture request computed).1 := by
    rw [plan_of_ok hcapture hcompute, hcompare]
  rw [hplan]
  apply publishPlan_withGeneration

/-- A refusal is what the uninterrupted call returns in the state that was captured. -/
theorem plan_of_refusal {result : PlanningResult} (hcapture : capture = (state.capturePlan authority).1)
    (hcompute : computePlan sha capture request = .error result) :
    (state.plan sha authority request).1 = result := by
  unfold plan
  subst hcapture
  cases hsection : state.capturePlan authority with
  | mk capture counted =>
    rw [hsection] at hcompute
    dsimp only at hcompute ⊢
    rw [hcompute]

end RuntimeState

/-! ## The calls of a run -/

namespace PlannerSystem

variable {start system system' : PlannerSystem} {past : List PlannerAction} {action : PlannerAction}
  {call : ℕ} {entry : PlanCall} {authority : PathAuthority}

variable (sha start system past call entry authority) in
/-- How the phase of a call has come about: it captured a state of the run; unless the publication
sequence has moved on since, the runtime still offers what was captured; and what has been compared
or returned is marked after such a move, or is the answer of a state of the run. -/
structure Explained : Prop where
  captured : ∃ moment, Takes (step sha) start past (.capture call entry.request authority) moment ∧
    entry.capture = (moment.runtime.capturePlan authority).1
  offered : entry.capture.publishSequence < system.runtime.publishSequence ∨
    entry.capture = (system.runtime.capturePlan authority).1
  compared : ∀ computed, entry.phase = .compared computed →
    entry.capture.publishSequence < system.runtime.publishSequence ∧ computed.result.Marked ∨
    computePlan sha entry.capture entry.request = .ok computed ∧
      ∃ moment, Takes (step sha) start past (.compare call) moment ∧
        entry.capture = (moment.runtime.capturePlan authority).1
  returned : ∀ result, entry.phase = .returned result →
    computePlan sha entry.capture entry.request = .error result ∨
    entry.capture.publishSequence < system.runtime.publishSequence ∧ result.Marked ∨
    ∃ moment generation, Takes (step sha) start past (.compare call) moment ∧
      result = (moment.runtime.plan sha authority entry.request).1.withGeneration generation

/-- The section of a call that makes its entry what it is. -/
inductive SectionOf (sha : List UInt8 → Sha256Digest) (system : PlannerSystem) (call : ℕ) :
    PlannerAction → PlanCall → Prop
  | capture (request : PlanningRequest) (authority : PathAuthority) :
    SectionOf sha system call (.capture call request authority)
      ⟨request, (system.runtime.capturePlan authority).1, .captured⟩
  | refuse {request : PlanningRequest} {capture : PlanCapture} {result : PlanningResult}
      (hprior : system.calls.lookup call = some ⟨request, capture, .captured⟩)
      (h : computePlan sha capture request = .error result) :
    SectionOf sha system call (.compare call) ⟨request, capture, .returned result⟩
  | compare {request : PlanningRequest} {capture : PlanCapture} {computed : ComputedPlan}
      (hprior : system.calls.lookup call = some ⟨request, capture, .captured⟩)
      (h : computePlan sha capture request = .ok computed) :
    SectionOf sha system call (.compare call)
      ⟨request, capture, .compared (system.runtime.comparePlan capture computed)⟩
  | publish {request : PlanningRequest} {capture : PlanCapture} {computed : ComputedPlan}
      (hprior : system.calls.lookup call = some ⟨request, capture, .compared computed⟩) :
    SectionOf sha system call (.publish call)
      ⟨request, capture, .returned (system.runtime.publishPlan sha capture request computed).1⟩

/-- **An entry** is as it was, or was made by a section of its call. -/
theorem lookup_of_step (hstep : system.step sha action = some system')
    (hentry : system'.calls.lookup call = some entry) :
    system.calls.lookup call = some entry ∨ SectionOf sha system call action entry := by
  have hinsert {c : ℕ} {new : PlanCall} (h : (system.calls.insert c new).lookup call = some entry)
      (hnew : SectionOf sha system c action new) :
      system.calls.lookup call = some entry ∨ SectionOf sha system call action entry := by
    by_cases hc : call = c
    · subst hc
      rw [AList.lookup_insert] at h
      obtain rfl := Option.some.inj h
      exact Or.inr hnew
    · rw [AList.lookup_insert_ne hc] at h
      exact Or.inl h
  unfold step at hstep
  cases action with
  | perform op =>
    obtain rfl := Option.some.inj hstep
    exact Or.inl hentry
  | capture c request authority =>
    dsimp only at hstep
    split_ifs at hstep
    obtain rfl := Option.some.inj hstep
    exact hinsert hentry (.capture request authority)
  | compare c =>
    dsimp only at hstep
    split at hstep
    · next prior hprior =>
      obtain ⟨request, capture, phase⟩ := prior
      cases phase with
      | captured =>
        obtain rfl := Option.some.inj hstep
        unfold compareCall at hentry
        dsimp only at hentry
        cases hcompute : computePlan sha capture request with
        | error result =>
          rw [hcompute] at hentry
          exact hinsert hentry (.refuse hprior hcompute)
        | ok computed =>
          rw [hcompute] at hentry
          exact hinsert hentry (.compare hprior hcompute)
      | compared | returned => cases hstep
    · cases hstep
  | publish c =>
    dsimp only at hstep
    split at hstep
    · next prior hprior =>
      obtain ⟨request, capture, phase⟩ := prior
      cases phase with
      | compared computed =>
        obtain rfl := Option.some.inj hstep
        exact hinsert hentry (.publish hprior)
      | captured | returned => cases hstep
    · cases hstep

/-- What a runtime offers to a call changes only with the publication sequence. -/
theorem offered_of_step
    (hwrap : system.Advances action → system.runtime.publishSequence.value + 1 < 2 ^ 64)
    (hstep : system.step sha action = some system') :
    system.runtime.publishSequence < system'.runtime.publishSequence ∨
      (system'.runtime.capturePlan authority).1 = (system.runtime.capturePlan authority).1 := by
  by_cases hadvance : system.Advances action
  · left
    rw [step_publishSequence hstep, if_pos hadvance]
    exact PlanPublishSequence.lt_next_iff.mpr (Nat.lt_sub_of_add_lt (hwrap hadvance))
  · right
    rcases step_cases hstep with ⟨op, rfl, rfl⟩ | ⟨_, _, _, _, _, _, _, rfl⟩
    · -- of the calls to the runtime, only retentions and refused advances are left
      cases op with
      | publishSnapshot snapshot => exact absurd trivial hadvance
      | applyInvalidation notice => exact absurd trivial hadvance
      | advanceEpoch epoch conservativeRecovery =>
        dsimp only
        rw [RuntimeState.perform_advanceEpoch_of_le (not_lt.mp hadvance)]
      | retain plan =>
        obtain ⟨_, _, _, _, hretain⟩ := system.runtime.perform_retain plan
        dsimp only
        rw [hretain]
        rfl
    · rfl

namespace Explained

/-- A call that a section leaves alone stays explained. -/
theorem of_lookup
    (hwrap : system.Advances action → system.runtime.publishSequence.value + 1 < 2 ^ 64)
    (hstep : system.step sha action = some system')
    (h : Explained sha start system past call entry authority) :
    Explained sha start system' (past ++ [action]) call entry authority := by
  have hle := publishSequence_le_of_step hwrap hstep
  constructor
  · obtain ⟨moment, htakes, hcapture⟩ := h.captured
    exact ⟨moment, htakes.append _, hcapture⟩
  · rcases h.offered with hmoved | hoffers
    · exact Or.inl (hmoved.trans_le hle)
    · rw [hoffers]
      exact (offered_of_step hwrap hstep).imp_right Eq.symm
  · intro computed hphase
    rcases h.compared computed hphase with ⟨hmoved, hmarked⟩ | ⟨hcompute, moment, htakes, hcapture⟩
    · exact Or.inl ⟨hmoved.trans_le hle, hmarked⟩
    · exact Or.inr ⟨hcompute, moment, htakes.append _, hcapture⟩
  · intro result hphase
    rcases h.returned result hphase with
      hrefused | ⟨hmoved, hmarked⟩ | ⟨moment, generation, htakes, hanswer⟩
    · exact Or.inl hrefused
    · exact Or.inr (Or.inl ⟨hmoved.trans_le hle, hmarked⟩)
    · exact Or.inr (Or.inr ⟨moment, generation, htakes.append _, hanswer⟩)

variable (sha start past system) in
/-- Every call of a run is explained. -/
def All : Prop :=
  ∀ call entry, system.calls.lookup call = some entry →
    ∃ authority, Explained sha start system past call entry authority

/-- **The step lemma.** -/
theorem All.step
    (hwrap : system.Advances action → system.runtime.publishSequence.value + 1 < 2 ^ 64)
    (hpast : run (step sha) start past = some system)
    (hstep : system.step sha action = some system') (h : All sha start system past) :
    All sha start system' (past ++ [action]) := by
  intro call entry hentry
  have hle := publishSequence_le_of_step hwrap hstep
  rcases lookup_of_step hstep hentry with hsame | hsection
  · obtain ⟨authority, hexplained⟩ := h call entry hsame
    exact ⟨authority, hexplained.of_lookup hwrap hstep⟩
  cases hsection with
  | capture request authority =>
    have hnow : system.runtime.publishSequence < system'.runtime.publishSequence ∨
        (system'.runtime.capturePlan authority).1 = (system.runtime.capturePlan authority).1 :=
      offered_of_step hwrap hstep
    exact ⟨authority, ⟨system, takes_last hpast, rfl⟩, hnow.imp_right Eq.symm, by rintro _ ⟨⟩,
      by rintro _ ⟨⟩⟩
  | refuse hprior hcompute =>
    obtain ⟨authority, hexplained⟩ := h call _ hprior
    have hlater := hexplained.of_lookup hwrap hstep
    refine ⟨authority, hlater.captured, hlater.offered, by rintro _ ⟨⟩, ?_⟩
    rintro _ ⟨⟩
    exact Or.inl hcompute
  | @compare request capture computed hprior hcompute =>
    obtain ⟨authority, hexplained⟩ := h call _ hprior
    have hlater := hexplained.of_lookup hwrap hstep
    refine ⟨authority, hlater.captured, hlater.offered, ?_, by rintro _ ⟨⟩⟩
    rintro _ ⟨⟩
    rcases hexplained.offered with hmoved | hoffers
    · exact Or.inl ⟨hmoved.trans_le hle, comparePlan_marked _ _ _ hmoved.ne'⟩
    · -- nothing has moved: what was computed stays as it is
      rw [RuntimeState.comparePlan_of_capture hoffers hcompute]
      exact Or.inr ⟨hcompute, system, takes_last hpast, hoffers⟩
  | @publish request capture computed hprior =>
    obtain ⟨authority, hexplained⟩ := h call _ hprior
    have hlater := hexplained.of_lookup hwrap hstep
    refine ⟨authority, hlater.captured, hlater.offered, by rintro _ ⟨⟩, ?_⟩
    rintro _ ⟨⟩
    right
    rcases hlater.compared computed rfl with
      ⟨hmoved, hmarked⟩ | ⟨hcompute, moment, htakes, hcapture⟩
    · exact Or.inl ⟨hmoved, publishPlan_marked _ _ _ _ hmarked⟩
    · exact Or.inr ⟨moment, _, htakes,
        RuntimeState.publishPlan_of_capture hcapture hcompute system.runtime⟩

end Explained

/-- **Plan calls are atomic**: in every run of a new runtime, in which the publication sequence does
not wrap around, what a call returns is the refusal of the state that it captured, or it is marked
and the inputs have changed since then, or it is the answer of the state that it was compared in, up
to the generation. -/
theorem plan_linearizable (sha : List UInt8 → Sha256Digest) (limits : ResourceLimits)
    (snapshot : Option FabricSnapshot) (hasAuthority : Bool) {actions : List PlannerAction}
    {system : PlannerSystem}
    (hcount : count (step sha) Advances { runtime := .new limits snapshot hasAuthority } actions <
      2 ^ 64)
    (hrun : run (step sha) { runtime := .new limits snapshot hasAuthority } actions = some system)
    {call : ℕ} {result : PlanningResult} (hresult : system.result? call = some result) :
    ∃ request authority captured,
      Takes (step sha) { runtime := .new limits snapshot hasAuthority } actions
        (.capture call request authority) captured ∧
      (result = (captured.runtime.plan sha authority request).1 ∨
        captured.runtime.publishSequence < system.runtime.publishSequence ∧ result.Marked ∨
        ∃ compared generation,
          Takes (step sha) { runtime := .new limits snapshot hasAuthority } actions (.compare call)
            compared ∧
          result = (compared.runtime.plan sha authority request).1.withGeneration generation) := by
  have hwrap : StepsMeet (step sha)
      (fun s a => s.Advances a → s.runtime.publishSequence.value + 1 < 2 ^ 64)
      { runtime := .new limits snapshot hasAuthority } actions :=
    stepsMeet_of_count (f := fun s : PlannerSystem => s.runtime.publishSequence.value)
      (fun s a s' hs ha hlt => by
        rw [step_publishSequence hs, if_pos ha]
        exact PlanPublishSequence.next_value (Nat.lt_sub_of_add_lt hlt))
      (fun s a s' hs ha => by rw [step_publishSequence hs, if_neg ha])
      ((Nat.zero_add _).trans_lt hcount)
  have hall : Explained.All sha { runtime := .new limits snapshot hasAuthority } system actions := by
    refine hwrap.invariant_past
      (I := fun past system => Explained.All sha _ system past) ?_ hrun ?_
    · intro past t a t' hpast ha hs h
      exact h.step ha hpast hs
    · intro call entry hentry
      cases hentry
  obtain ⟨entry, hentry, hphase⟩ := Option.bind_eq_some_iff.mp hresult
  have hreturned : entry.phase = .returned result := by
    unfold PlanCall.result? at hphase
    split at hphase
    · next hreturned => rw [hreturned, Option.some.inj hphase]
    · cases hphase
  obtain ⟨authority, hexplained⟩ := hall call entry hentry
  obtain ⟨captured, htakes, hcapture⟩ := hexplained.captured
  refine ⟨entry.request, authority, captured, htakes, ?_⟩
  rcases hexplained.returned result hreturned with hrefused | ⟨hmoved, hmarked⟩ | hanswer
  · exact Or.inl (RuntimeState.plan_of_refusal hcapture hrefused).symm
  · rw [hcapture] at hmoved
    exact Or.inr (Or.inl ⟨hmoved, hmarked⟩)
  · exact Or.inr (Or.inr hanswer)

theorem plan_linearizable_publishedSystem : ∃ result, publishedSystem.result? 0 = some result ∧
    ∃ request authority captured,
      Takes (step constantHash) initial [captureSection, .compare 0, .publish 0]
        (.capture 0 request authority) captured ∧
      (result = (captured.runtime.plan constantHash authority request).1 ∨
        captured.runtime.publishSequence < publishedSystem.runtime.publishSequence ∧
          result.Marked ∨
        ∃ compared generation,
          Takes (step constantHash) initial [captureSection, .compare 0, .publish 0] (.compare 0)
            compared ∧
          result =
            (compared.runtime.plan constantHash authority request).1.withGeneration generation) := by
  have hresult : (publishedSystem.result? 0).isSome := by decide +kernel
  have hrun : run (step constantHash) initial [captureSection, .compare 0, .publish 0] =
    some publishedSystem := (Option.some_get _).symm
  refine ⟨_, (Option.some_get hresult).symm, ?_⟩
  exact plan_linearizable constantHash {} (some singleLink) false (by decide +kernel) hrun
    (Option.some_get hresult).symm

end PlannerSystem

end PathPlanner
