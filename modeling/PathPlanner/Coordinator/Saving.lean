import PathPlanner.Coordinator.History
import PathPlanner.Store.Ceiling
import PathPlanner.Store.RoundTrip
import PathPlanner.Wire.Request
import PathPlanner.Wire.Result

/-!
# Saving the history of a coordinator

A coordinator looks up the plans that it has listed, one section for each, and writes their records
into an image, which it recovers when it is started again. The reader refuses an image as a whole, so
one record too many or one that is not storable loses the history.

## Main definitions

* `payloadCodec`: the payload decoders of requests and results
* `PathPlan.PassesStoreChecks`: what the reader of the store asks beyond the payload decoders
* `StoreSystem`: a coordinator with its saves
* `StoreSystem.KeepsHistory`: the section keeps what is listed in step with what is retained

## Main results

* `PathPlan.IsAccepted.isStorable_iff`: which accepted plans are storable
* `StoreSystem.IsSound.step`: the step lemma
* `StoreSystem.saved_isHistory`: **a saved image is the history** in any run of such sections
-/

namespace PathPlanner

open Decoder Run

variable (sha : List UInt8 → Sha256Digest)

/-! ## Accepted plans -/

/-- What a payload decoder reports of a rejection. -/
def reportOf : Stop WireRefusal → WireStatus × String
  | .refused refusal => (refusal.status, refusal.detail.getD "")
  | .fault => (.internal, "")

/-- The payload decoders, with those of greetings and queries as parameters. -/
def payloadCodec (decodeHello : List UInt8 → Except (WireStatus × String) HelloPayload)
    (decodeQuery : List UInt8 → Except (WireStatus × String) CurrentnessQueryPayload) :
    PayloadCodec where
  decodeHello := decodeHello
  decodeQuery := decodeQuery
  decodeRequest limits bytes := (decodeRequestBytes limits bytes).mapError reportOf
  decodeResult limits bytes := (decodeResultBytes sha limits bytes).mapError reportOf

theorem eq_ok_of_mapError {ε ε' α : Type} {f : ε → ε'} {e : Except ε α} {value : α}
    (h : e.mapError f = .ok value) : e = .ok value := by
  cases e with
  | error failure => cases h
  | ok value' => exact congrArg Except.ok (Except.ok.inj h)

/-- A plan made of a request and a result that are decoded from payloads. -/
def PathPlan.IsAccepted (limits : ResourceLimits) (plan : PathPlan) : Prop :=
  ∃ requestPayload payload request result sequence,
    decodeRequestBytes limits requestPayload = .ok request ∧
      decodeResultBytes sha limits payload = .ok result ∧
        plan = makePathPlan sha request result sequence

/-- **What the reader of the store asks** of a plan beyond what the payload decoders ask. -/
structure PathPlan.PassesStoreChecks (plan : PathPlan) : Prop where
  ranks : plan.candidates.map (·.rank.value) = List.range' 1 plan.candidates.length
  totals : plan.candidates.Pairwise fun a b => a.cost.total ≤ b.cost.total
  hops_eq : ∀ c ∈ plan.candidates, c.cost.hops.value = c.path.hops.length
  generation_le : ∀ c ∈ plan.candidates, ∀ hop ∈ c.path.hops,
    hop.structuralGeneration.value ≤ plan.evidence.generations.topology.value
  ids_nodup : (plan.candidates.map (·.path.id sha)).Nodup

section Accepted

variable {sha} {limits : ResourceLimits} {plan : PathPlan}

theorem validateRequest_of_decodeRequestBytes {bytes : List UInt8} {request : PlanningRequest}
    (h : decodeRequestBytes limits bytes = .ok request) : validateRequest request limits = none := by
  unfold decodeRequestBytes at h
  cases hread : readPayload (readRequest limits)
    "planning request payload carries trailing bytes" bytes with
  | error stop =>
    rw [hread] at h
    cases h
  | ok decoded =>
    rw [hread] at h
    simp only [ok_bind] at h
    cases hvalid : validateRequest decoded limits with
    | some problem =>
      rw [hvalid] at h
      cases h
    | none =>
      rw [hvalid] at h
      exact Except.ok.inj h ▸ hvalid

/-- **An accepted plan** with an identity is storable exactly when it passes these checks. -/
theorem PathPlan.IsAccepted.isStorable_iff (h : plan.IsAccepted sha limits)
    (hid : plan.id.isValid = true) :
    plan.IsStorable sha limits ↔ plan.PassesStoreChecks sha := by
  obtain ⟨requestPayload, payload, request, result, sequence, hrequest, hresult, rfl⟩ := h
  obtain ⟨hrequestId, hconstraintSet, hlayer⟩ :=
    validateRequest_isValid (validateRequest_of_decodeRequestBytes hrequest)
  obtain ⟨decoded, hreceivable, -, rfl⟩ := decodeResultBytes_eq_ok_iff.mp hresult
  constructor
  · intro hs
    exact ⟨hs.ranks, hs.totals, fun c hc => (hs.candidates c hc).hops_eq,
      fun c hc => (hs.candidates c hc).generation_le, hs.ids_nodup⟩
  · intro hp
    exact
      { request_isValid := hrequestId
        id_isValid := hid
        constraintSet_isValid := hconstraintSet
        source_isValid := hreceivable.sourceNode_isValid
        destination_isValid := hreceivable.destinationNode_isValid
        layer_isKnown := hlayer
        snapshot_isValid := hreceivable.snapshot_isValid
        length_le := hreceivable.candidates_le
        candidates := fun c hc =>
          have hcandidate := hreceivable.candidates c hc
          ⟨hcandidate.path.structural_eq.symm ▸ hcandidate.path, hcandidate.cost,
            hcandidate.rank_le, hp.hops_eq c hc, hp.generation_le c hc⟩
        ranks := hp.ranks
        ids_nodup := hp.ids_nodup
        totals := hp.totals
        digest_eq := computeSemanticDigest_fromStoredRecord_makePathPlan sha
          fun c hc => (hreceivable.candidates c hc).id_eq }

end Accepted

/-! ## Recovered plans -/

/-- A record that was accepted is the record of the plan that is recovered from it. -/
theorem StoredPlanRecord.IsReadable.toStoredRecord_recoveredPlan
    {sha : List UInt8 → Sha256Digest} {limits : ResourceLimits} {record : StoredPlanRecord}
    {before : List StoredPlanRecord}
    (h : record.IsReadable sha limits before) :
    toStoredRecord (Coordinator.recoveredPlan sha record) = record := by
  obtain ⟨hcandidates, hcosts, hranks⟩ := StoredPlanRecord.map_rows h.costs_length h.ranks_length
  have hrows : (Coordinator.recoveredPlan sha record).candidates =
      record.rows.map (recoveredCandidate sha record.evidence) := by
    unfold Coordinator.recoveredPlan
    dsimp only
    rw [candidates_fromStoredRecord, List.map_map]
    rfl
  unfold toStoredRecord
  rw [hrows, List.map_map, List.map_map, List.map_map]
  change { record with
    candidates := record.rows.map (·.1)
    costs := record.rows.map (·.2.1)
    ranks := record.rows.map (·.2.2) } = record
  rw [hcandidates, hcosts, hranks]

/-- A plan that is recovered from a record is storable. -/
theorem StoredPlanRecord.IsReadable.isStorable_recoveredPlan
    {sha : List UInt8 → Sha256Digest} {limits : ResourceLimits} {record : StoredPlanRecord}
    {before : List StoredPlanRecord}
    (h : record.IsReadable sha limits before) :
    (Coordinator.recoveredPlan sha record).IsStorable sha limits := by
  have hreadable := h
  rw [← h.structural_eq, ← h.toStoredRecord_recoveredPlan] at hreadable
  exact ((isReadable_structural_toStoredRecord_iff sha limits).mp hreadable).1

/-! ## The system -/

/-- `RecoverStore`, with the content of the file. -/
def Coordinator.recover (c : Coordinator) (image : List UInt8) : Coordinator :=
  match loadPlanStore sha c.limits image [] with
  | some (result, records) => if result.ok then c.recoverStore sha records else c
  | none => c

/-- A call of `SaveStore`: the identities that are left to look up and the plans that were found, or
the image that was written. -/
inductive SaveCall
  | looking (ids : List PathPlanId) (plans : List PathPlan)
  | saved (result : StoreResult) (image : List UInt8)

/-- The call has not written its image yet. -/
def SaveCall.InProgress : SaveCall → Prop
  | looking _ _ => True
  | saved _ _ => False

/-- The next section of a call: `FindPlan` for the next identity, and in the end
`EncodePlanStore`. -/
def SaveCall.next (c : Coordinator) : SaveCall → Option SaveCall
  | looking (id :: ids) plans => some (looking ids (plans ++ (c.runtime.findPlan id).toList))
  | looking [] plans =>
    let written := encodePlanStore sha (plans.map toStoredRecord)
      ⟨c.limits, c.runtime.publishSequence⟩ []
    some (saved written.1 written.2)
  | saved _ _ => none

/-- A coordinator with the calls that save its history. -/
structure StoreSystem where
  coordinator : Coordinator
  saves : List SaveCall := []

/-- A section of a coordinator or of a save. -/
inductive StoreAction
  /-- The coordinator is started, and recovers the content of its file. -/
  | start (image : List UInt8)
  | coordinator (action : CoordinatorAction)
  /-- A save reads what is listed. -/
  | save
  /-- A save runs its next section. -/
  | proceed (index : ℕ)

namespace History

/-- No thread is about to list a plan. -/
def IsQuiet (h : History) : Prop := ∀ i id, h.storing i ≠ some (.recording id)

/-- The section retains a plan. -/
def Retains (h : History) (action : CoordinatorAction) : Prop :=
  ∃ index plan, action = .proceed index ∧ h.storing index = some (.retaining plan) ∧
    plan.id.isValid = true

/-- A plan is retained by the thread of a publication only, when it has not been listed and is not
about to be, and when it passes the checks of the store. -/
def Admits (h : History) : CoordinatorAction → Prop
  | .proceed index => ∀ plan, h.storing index = some (.retaining plan) → plan.id.isValid = true →
    plan.id ∉ h.retainedIds ∧ (∀ i, h.storing i ≠ some (.recording plan.id)) ∧
      plan.PassesStoreChecks sha
  | .runtime op => op.IsPassive
  | _ => True

end History

namespace StoreSystem

/-- A coordinator that has not been started. -/
def new (limits : ResourceLimits) (snapshot : Option FabricSnapshot) (epoch : FabricEpoch) :
    StoreSystem :=
  { coordinator := .new limits snapshot epoch }

/-- One section. The coordinator is started under coherent limits, with no session left. -/
def step (codec : PayloadCodec) (s : StoreSystem) : StoreAction → Option StoreSystem
  | .start image =>
    if s.coordinator.sessions.all (·.isClosed) ∧ validateLimits s.coordinator.limits = none then
      some { s with coordinator := s.coordinator.recover sha image }
    else none
  | .coordinator action =>
    (s.coordinator.step sha codec action).map fun c => { s with coordinator := c }
  | .save => some { s with saves := s.saves ++ [.looking s.coordinator.retainedIds []] }
  | .proceed index =>
    s.saves[index]?.bind fun save =>
      (save.next sha s.coordinator).map fun save' => { s with saves := s.saves.set index save' }

/-! ## The condition -/

/-- No save is in progress. -/
def IsIdle (s : StoreSystem) : Prop := ∀ save ∈ s.saves, ¬ save.InProgress

/-- **The section keeps what is listed in step with what is retained**: a plan is retained by the
thread of a publication only, no plan is retained that has been listed or is about to be, or while it
is being saved, the reader of the store has nothing against it, and a save begins when no thread is
about to list a plan. -/
def KeepsHistory (s : StoreSystem) : StoreAction → Prop
  | .start image => s.IsIdle ∧
    ∀ records, loadPlanStore sha s.coordinator.limits image [] = some ({ ok := true }, records) →
      ∀ record ∈ records, record.plan ∉ s.coordinator.retainedIds
  | .coordinator action => s.coordinator.history.Admits sha action ∧
    (s.coordinator.history.Retains action → s.IsIdle)
  | .save => s.coordinator.history.IsQuiet
  | .proceed _ => True

end StoreSystem

/-! ## The invariant -/

/-- **What is retained is listed**, once, or about to be, and storable. -/
structure History.IsSound (h : History) : Prop where
  nodup : h.retainedIds.Nodup
  listed : ∀ id plan, h.runtime.findPlan id = some plan →
    id ∈ h.retainedIds ∨ ∃ i, h.storing i = some (.recording id)
  storable : ∀ id plan, h.runtime.findPlan id = some plan →
    plan.id = id ∧ plan.IsStorable sha h.limits
  accepted : ∀ i plan, h.storing i = some (.retaining plan) → plan.IsAccepted sha h.limits
  recording_new : ∀ i id, h.storing i = some (.recording id) → id ∉ h.retainedIds
  recording_unique : ∀ i j id, h.storing i = some (.recording id) →
    h.storing j = some (.recording id) → i = j

namespace History

variable {sha} {h : History} {index : ℕ} {plan : PathPlan}

theorem storing_put (place : Option SessionActivity) (i : ℕ) :
    (h.put index place).storing i = if i = index then place else h.storing i := by
  unfold put
  dsimp only
  rw [Function.update_apply]

/-- A passive call keeps the invariant. -/
theorem IsSound.perform (hs : h.IsSound sha) {op : RuntimeOperation} (hop : op.IsPassive) :
    { h with runtime := h.runtime.perform op }.IsSound sha where
  nodup := hs.nodup
  listed id plan hfind := hs.listed id plan (RuntimeState.findPlan_perform hop id ▸ hfind)
  storable id plan hfind := hs.storable id plan (RuntimeState.findPlan_perform hop id ▸ hfind)
  accepted := hs.accepted
  recording_new := hs.recording_new
  recording_unique := hs.recording_unique

/-- A thread that is not about to list a plan goes to a place where it is not. -/
theorem IsSound.put (hs : h.IsSound sha) {place : Option SessionActivity}
    (hidle : ∀ id, h.storing index ≠ some (.recording id))
    (hplace : ∀ id, place ≠ some (.recording id))
    (haccepted : ∀ plan, place = some (.retaining plan) → plan.IsAccepted sha h.limits) :
    (h.put index place).IsSound sha where
  nodup := hs.nodup
  listed id plan hfind := by
    refine (hs.listed id plan hfind).imp_right fun ⟨i, hi⟩ => ⟨i, ?_⟩
    rw [storing_put, if_neg]
    · exact hi
    · rintro rfl
      exact hidle id hi
  storable := hs.storable
  accepted i plan hi := by
    rw [storing_put] at hi
    split_ifs at hi
    · exact haccepted plan hi
    · exact hs.accepted i plan hi
  recording_new i id hi := by
    rw [storing_put] at hi
    split_ifs at hi
    · exact absurd hi (hplace id)
    · exact hs.recording_new i id hi
  recording_unique i j id hi hj := by
    rw [storing_put] at hi hj
    split_ifs at hi hj
    · exact absurd hi (hplace id)
    · exact absurd hi (hplace id)
    · exact absurd hj (hplace id)
    · exact hs.recording_unique i j id hi hj

/-- A thread retains a new plan that is storable. -/
theorem IsSound.retain (hs : h.IsSound sha)
    (hidle : ∀ id, h.storing index ≠ some (.recording id))
    (hvalid : plan.id.isValid = true) (hstorable : plan.IsStorable sha h.limits)
    (hnew : plan.id ∉ h.retainedIds) (hrecording : ∀ i, h.storing i ≠ some (.recording plan.id)) :
    ({ h with runtime := h.runtime.retainValid plan }.put index
      (some (.recording plan.id))).IsSound sha where
  nodup := hs.nodup
  listed id plan' hfind := by
    by_cases hid : id = plan.id
    · refine Or.inr ⟨index, ?_⟩
      rw [storing_put, if_pos rfl, hid]
    · rcases h.runtime.findPlan_retainValid_of_ne hvalid hid with hnone | hsame
      · cases hnone.symm.trans hfind
      · refine (hs.listed id plan' (hsame.symm.trans hfind)).imp_right fun ⟨i, hi⟩ => ⟨i, ?_⟩
        rw [storing_put, if_neg]
        · exact hi
        · rintro rfl
          exact hidle id hi
  storable id plan' hfind := by
    by_cases hid : id = plan.id
    · subst hid
      obtain rfl := Option.some.inj (RuntimeState.findPlan_retainValid_self.symm.trans hfind)
      exact ⟨rfl, hstorable⟩
    · rcases h.runtime.findPlan_retainValid_of_ne hvalid hid with hnone | hsame
      · cases hnone.symm.trans hfind
      · exact hs.storable id plan' (hsame.symm.trans hfind)
  accepted i plan' hi := by
    rw [storing_put] at hi
    split_ifs at hi
    · cases Option.some.inj hi
    · exact hs.accepted i plan' hi
  recording_new i id hi := by
    rw [storing_put] at hi
    split_ifs at hi
    · exact SessionActivity.recording.inj (Option.some.inj hi) ▸ hnew
    · exact hs.recording_new i id hi
  recording_unique i j id hi hj := by
    rw [storing_put] at hi hj
    split_ifs at hi hj with hi' hj' hj'
    · exact hi'.trans hj'.symm
    · exact absurd hj (SessionActivity.recording.inj (Option.some.inj hi) ▸ hrecording j)
    · exact absurd hi (SessionActivity.recording.inj (Option.some.inj hj) ▸ hrecording i)
    · exact hs.recording_unique i j id hi hj

/-- A thread lists the plan that it has retained. -/
theorem IsSound.record (hs : h.IsSound sha) {id : PathPlanId}
    (hstoring : h.storing index = some (.recording id)) :
    ({ h with retainedIds := h.retainedIds ++ [id] }.put index none).IsSound sha where
  nodup := List.nodup_append.mpr ⟨hs.nodup, List.nodup_singleton _, fun a ha b hb => by
    rintro rfl
    exact hs.recording_new index id hstoring (List.mem_singleton.mp hb ▸ ha)⟩
  listed id' plan hfind := by
    rcases hs.listed id' plan hfind with hmem | ⟨i, hi⟩
    · exact Or.inl (List.mem_append_left _ hmem)
    · by_cases heq : i = index
      · rw [heq, hstoring] at hi
        obtain rfl := SessionActivity.recording.inj (Option.some.inj hi)
        exact Or.inl (List.mem_append_right _ List.mem_cons_self)
      · refine Or.inr ⟨i, ?_⟩
        rw [storing_put, if_neg heq]
        exact hi
  storable := hs.storable
  accepted i plan hi := by
    rw [storing_put] at hi
    split_ifs at hi
    exact hs.accepted i plan hi
  recording_new i id' hi := by
    rw [storing_put] at hi
    split_ifs at hi with heq
    refine fun hmem => (List.mem_append.mp hmem).elim (hs.recording_new i id' hi) fun hlast => ?_
    -- no other thread is about to list the plan
    obtain rfl := List.mem_singleton.mp hlast
    exact heq (hs.recording_unique i index id' hi hstoring)
  recording_unique i j id' hi hj := by
    rw [storing_put] at hi hj
    split_ifs at hi hj
    exact hs.recording_unique i j id' hi hj

/-- **The step lemma** of the history. -/
theorem IsSound.step {h' : History} {action : CoordinatorAction}
    {decodeHello : List UInt8 → Except (WireStatus × String) HelloPayload}
    {decodeQuery : List UInt8 → Except (WireStatus × String) CurrentnessQueryPayload}
    (hs : h.IsSound sha) (hadmits : h.Admits sha action)
    (hstep : h.Step sha (payloadCodec sha decodeHello decodeQuery) action h') : h'.IsSound sha := by
  cases hstep with
  | stay => exact hs
  | perform action hop => exact hs.perform hop
  | retainDirectly plan => exact absurd rfl (hadmits plan)
  | accept hnone hrequest hresult =>
    refine hs.put (fun id => hnone ▸ nofun) (fun id => nofun) fun plan hplan => ?_
    obtain rfl := SessionActivity.retaining.inj (Option.some.inj hplan)
    exact ⟨_, _, _, _, _, eq_ok_of_mapError hrequest, eq_ok_of_mapError hresult, rfl⟩
  | @retain index plan hstoring =>
    have hidle (id : PathPlanId) : h.storing index ≠ some (.recording id) := fun hi => by
      cases Option.some.inj (hstoring.symm.trans hi)
    by_cases hvalid : plan.id.isValid = true
    · obtain ⟨hnew, hrecording, hchecks⟩ := hadmits plan hstoring hvalid
      have hstorable := ((hs.accepted index plan hstoring).isStorable_iff hvalid).mpr hchecks
      rw [RuntimeState.retain_of_isValid hvalid]
      exact hs.retain hidle hvalid hstorable hnew hrecording
    · rw [RuntimeState.retain_of_not_isValid hvalid]
      exact hs.put hidle (fun id => by simp) fun plan => by simp
  | record hstoring => exact hs.record hstoring

/-- A section that retains no plan, while no thread is about to list one. -/
theorem Step.same {h' : History} {action : CoordinatorAction} {codec : PayloadCodec}
    (hstep : h.Step sha codec action h') (hquiet : h.IsQuiet) (hadmits : h.Admits sha action)
    (hretains : ¬ h.Retains action) : h'.runtime.findPlan = h.runtime.findPlan ∧
      h'.retainedIds = h.retainedIds ∧ h'.IsQuiet := by
  have hput {h : History} (hquiet : h.IsQuiet) {place : Option SessionActivity}
      (hplace : ∀ id, place ≠ some (.recording id)) (index : ℕ) : (h.put index place).IsQuiet := by
    intro i id hi
    rw [storing_put] at hi
    split_ifs at hi
    · exact hplace id hi
    · exact hquiet i id hi
  cases hstep with
  | stay => exact ⟨rfl, rfl, hquiet⟩
  | perform action hop => exact ⟨funext (RuntimeState.findPlan_perform hop), rfl, hquiet⟩
  | retainDirectly plan => exact absurd rfl (hadmits plan)
  | accept => exact ⟨rfl, rfl, hput hquiet (fun id => by simp) _⟩
  | @retain index plan hstoring =>
    have hvalid : ¬ plan.id.isValid = true := fun hvalid =>
      hretains ⟨index, plan, rfl, hstoring, hvalid⟩
    rw [RuntimeState.retain_of_not_isValid hvalid]
    exact ⟨rfl, rfl, hput hquiet (fun id => by simp) _⟩
  | @record index id hstoring => exact absurd hstoring (hquiet index id)

/-- A plan is retained and listed at once, while no thread stores a plan. -/
theorem IsSound.recover (hs : h.IsSound sha) (hnone : ∀ i, h.storing i = none)
    (hvalid : plan.id.isValid = true) (hstorable : plan.IsStorable sha h.limits)
    (hnew : plan.id ∉ h.retainedIds) :
    { h with
      runtime := h.runtime.retainValid plan
      retainedIds := h.retainedIds ++ [plan.id] }.IsSound sha := by
  -- as if the first thread retained the plan and listed it
  have hretained := @IsSound.retain sha h 0 plan hs (fun id => hnone 0 ▸ nofun) hvalid hstorable hnew
    fun i => hnone i ▸ nofun
  have hlisted : { h with
      runtime := h.runtime.retainValid plan
      retainedIds := h.retainedIds ++ [plan.id]
      storing := Function.update (Function.update h.storing 0 (some (.recording plan.id))) 0
        none }.IsSound sha := hretained.record (by rw [storing_put, if_pos rfl])
  have hsame : Function.update (Function.update h.storing 0 (some (.recording plan.id))) 0 none =
      h.storing := by
    rw [Function.update_idem, ← hnone 0, Function.update_eq_self]
  rwa [hsame] at hlisted

end History

/-! ## Recovery -/

section Recovery

variable {sha} {c : Coordinator}

/-- Records that are loaded were accepted. -/
theorem areReadable_of_loadPlanStore {limits : ResourceLimits} {image : List UInt8}
    {out records : List StoredPlanRecord} {result : StoreResult}
    (h : loadPlanStore sha limits image out = some (result, records)) (hok : result.ok = true) :
    result = { ok := true } ∧ AreReadable sha limits records := by
  unfold loadPlanStore at h
  split_ifs at h
  · obtain rfl := congrArg Prod.fst (Option.some.inj h)
    cases hok
  · unfold decodePlanStore at h
    cases hdecode : decodeImage sha limits image with
    | ok records' =>
      rw [hdecode] at h
      obtain ⟨rfl, rfl⟩ := Prod.mk.inj (Option.some.inj h)
      exact ⟨rfl, ((decodeImage_eq_ok_iff sha limits).mp hdecode).1⟩
    | error stop =>
      rw [hdecode] at h
      cases stop with
      | fault => cases h
      | refused failure =>
        obtain rfl := congrArg Prod.fst (Option.some.inj h)
        cases hok

/-- The recovery of a readable record retains its plan and lists it. -/
theorem recoverStore_cons {record : StoredPlanRecord} {records : List StoredPlanRecord}
    (hvalid : record.plan.isValid = true) :
    c.recoverStore sha (record :: records) = { c with
      runtime := c.runtime.retainValid (Coordinator.recoveredPlan sha record)
      retainedIds := c.retainedIds ++ [record.plan]
      recoveredPlans := c.recoveredPlans + 1 }.recoverStore sha records := by
  have hretain : c.runtime.retain (Coordinator.recoveredPlan sha record) =
      (true, c.runtime.retainValid (Coordinator.recoveredPlan sha record)) :=
    RuntimeState.retain_of_isValid hvalid
  unfold Coordinator.recoverStore
  rw [List.foldl_cons]
  dsimp only
  rw [hretain]
  rfl

/-- **A recovery** of new plans keeps the invariant, and no thread stores a plan. -/
theorem History.IsSound.recoverStore {records : List StoredPlanRecord}
    (hs : c.history.IsSound sha) (hnone : ∀ i, c.history.storing i = none)
    (hreadable : ∀ record ∈ records, ∃ before, record.IsReadable sha c.limits before)
    (hnodup : (records.map (·.plan)).Nodup)
    (hnew : ∀ record ∈ records, record.plan ∉ c.retainedIds) :
    (c.recoverStore sha records).history.IsSound sha ∧
      ∀ i, (c.recoverStore sha records).history.storing i = none := by
  induction records generalizing c with
  | nil => exact ⟨hs, hnone⟩
  | cons record records ih =>
    obtain ⟨before, hrecord⟩ := hreadable record List.mem_cons_self
    rw [List.map_cons, List.nodup_cons] at hnodup
    rw [recoverStore_cons hrecord.plan_isValid]
    refine ih (hs.recover hnone hrecord.plan_isValid hrecord.isStorable_recoveredPlan
      (hnew record List.mem_cons_self)) hnone
      (fun later hlater => hreadable later (List.mem_cons_of_mem _ hlater)) hnodup.2
      fun later hlater hmem => ?_
    rcases List.mem_append.mp hmem with hmem | hmem
    · exact hnew later (List.mem_cons_of_mem _ hlater) hmem
    · exact hnodup.1 (List.mem_singleton.mp hmem ▸ List.mem_map_of_mem hlater)

/-- A coordinator whose sessions are closed stores nothing. -/
theorem storing_of_isClosed (h : c.sessions.all (·.isClosed) = true) (i : ℕ) :
    c.history.storing i = none := by
  change c.sessions[i]?.bind (·.activity.storing?) = none
  cases hs : c.sessions[i]? with
  | none => rfl
  | some session =>
    have hclosed := List.all_eq_true.mp h session (List.mem_of_getElem? hs)
    rw [Option.bind_some]
    unfold Session.isClosed at hclosed
    split at hclosed
    · next hactivity =>
      rw [hactivity]
      rfl
    · cases hclosed

end Recovery

/-! ## Runs -/

namespace StoreSystem

variable {sha} {s s' : StoreSystem} {action : StoreAction}
  {decodeHello : List UInt8 → Except (WireStatus × String) HelloPayload}
  {decodeQuery : List UInt8 → Except (WireStatus × String) CurrentnessQueryPayload}

/-- **The invariant**: the history is sound, and what the saves have found and what is left to look
up are what is listed and retained. -/
structure IsSound (sha : List UInt8 → Sha256Digest) (s : StoreSystem) : Prop where
  history : s.coordinator.history.IsSound sha
  quiet : ¬ s.IsIdle → s.coordinator.history.IsQuiet
  saves : ∀ ids plans, SaveCall.looking ids plans ∈ s.saves →
    plans ++ ids.filterMap s.coordinator.runtime.findPlan =
      s.coordinator.retainedIds.filterMap s.coordinator.runtime.findPlan

theorem not_looking_mem (h : s.IsIdle) {ids : List PathPlanId} {plans : List PathPlan} :
    SaveCall.looking ids plans ∉ s.saves := fun hmem => h _ hmem trivial

/-- The coordinator starts, or runs a section that changes nothing that a save in progress depends
on. -/
theorem IsSound.of_coordinator (hs : s.IsSound sha) {c : Coordinator}
    (hhistory : c.history.IsSound sha)
    (hsame : ¬ s.IsIdle → c.runtime.findPlan = s.coordinator.runtime.findPlan ∧
      c.retainedIds = s.coordinator.retainedIds ∧ c.history.IsQuiet) :
    { s with coordinator := c }.IsSound sha where
  history := hhistory
  quiet hbusy := (hsame hbusy).2.2
  saves ids plans hmem := by
    obtain ⟨hfind, hids, -⟩ := hsame fun hidle => not_looking_mem hidle hmem
    dsimp only
    rw [hfind, hids]
    exact hs.saves ids plans hmem

/-- **The step lemma.** -/
theorem IsSound.step (hs : s.IsSound sha) (hkeeps : s.KeepsHistory sha action)
    (hstep : s.step sha (payloadCodec sha decodeHello decodeQuery) action = some s') :
    s'.IsSound sha := by
  cases action with
  | start image =>
    unfold StoreSystem.step at hstep
    dsimp only at hstep
    split_ifs at hstep with hstart
    obtain rfl := Option.some.inj hstep
    obtain ⟨hidle, hnew⟩ := hkeeps
    refine hs.of_coordinator ?_ fun hbusy => absurd hidle hbusy
    have hnone := storing_of_isClosed hstart.1
    unfold Coordinator.recover
    cases hload : loadPlanStore sha s.coordinator.limits image [] with
    | none => exact hs.history
    | some loaded =>
      obtain ⟨result, records⟩ := loaded
      dsimp only
      split_ifs with hok
      · obtain ⟨rfl, hreadable⟩ := areReadable_of_loadPlanStore hload hok
        obtain ⟨hnodup, -⟩ := hreadable.isSound
        refine (hs.history.recoverStore hnone (fun record hrecord => ?_) hnodup
          (hnew records hload)).1
        obtain ⟨before, after, hsplit⟩ := List.append_of_mem hrecord
        exact ⟨before, hreadable.2 before record after hsplit⟩
      · exact hs.history
  | coordinator action =>
    obtain ⟨c, hc, rfl⟩ := Option.map_eq_some_iff.mp hstep
    obtain ⟨hadmits, hretains⟩ := hkeeps
    have hhistory := Coordinator.history_step hc
    exact hs.of_coordinator (hs.history.step hadmits hhistory) fun hbusy =>
      hhistory.same (hs.quiet hbusy) hadmits fun h => hbusy (hretains h)
  | save =>
    obtain rfl := Option.some.inj hstep
    refine ⟨hs.history, fun _ => hkeeps, fun ids plans hmem => ?_⟩
    rcases List.mem_append.mp hmem with hmem | hmem
    · exact hs.saves ids plans hmem
    · obtain ⟨rfl, rfl⟩ := SaveCall.looking.inj (List.mem_singleton.mp hmem)
      rfl
  | proceed index =>
    obtain ⟨save, hsave, hnext⟩ := Option.bind_eq_some_iff.mp hstep
    obtain ⟨save', hsave', rfl⟩ := Option.map_eq_some_iff.mp hnext
    have hmem : save ∈ s.saves := List.mem_of_getElem? hsave
    cases save with
    | saved result image => cases hsave'
    | looking ids plans =>
      have hbusy : ¬ s.IsIdle := fun hidle => not_looking_mem hidle hmem
      refine ⟨hs.history, fun _ => hs.quiet hbusy, fun ids' plans' hmem' => ?_⟩
      rcases List.mem_or_eq_of_mem_set hmem' with hmem' | rfl
      · exact hs.saves ids' plans' hmem'
      · cases ids with
        | nil => cases hsave'
        | cons id ids =>
          obtain ⟨rfl, rfl⟩ := SaveCall.looking.inj (Option.some.inj hsave')
          rw [← hs.saves (id :: ids) plans hmem, List.append_assoc, List.filterMap_cons]
          dsimp only
          cases s.coordinator.runtime.findPlan id <;> rfl

theorem isSound_new (limits : ResourceLimits) (snapshot : Option FabricSnapshot)
    (epoch : FabricEpoch) : (new limits snapshot epoch).IsSound sha where
  history :=
    { nodup := List.nodup_nil
      listed := fun _ _ => nofun
      storable := fun _ _ => nofun
      accepted := fun _ _ => nofun
      recording_new := fun _ _ => nofun
      recording_unique := fun _ _ _ => nofun }
  quiet _ _ _ := nofun
  saves _ _ hmem := absurd hmem List.not_mem_nil

/-- **The image is the history**: it is accepted, as one record of each plan that is retained. -/
def IsHistory (sha : List UInt8 → Sha256Digest) (c : Coordinator) (image : List UInt8) : Prop :=
  ∀ out, ∃ records, decodePlanStore sha c.limits image out = some ({ ok := true }, records) ∧
    (records.map (·.plan)).Perm c.runtime.retained.keys ∧
    ∀ record ∈ records, ∃ plan, c.runtime.findPlan record.plan = some plan ∧
      record = (toStoredRecord plan).structural

/-- What is found under identities that name the values found. -/
theorem map_filterMap_sublist {α β : Type} {f : α → Option β} {name : β → α}
    (h : ∀ a b, f a = some b → name b = a) (l : List α) :
    ((l.filterMap f).map name).Sublist l := by
  induction l with
  | nil => exact List.Sublist.slnil
  | cons a l ih =>
    rw [List.filterMap_cons]
    split
    · exact ih.cons a
    · next b hb =>
      rw [List.map_cons, h a b hb]
      exact ih.cons_cons a

/-- A save that has found its plans writes the history. -/
theorem IsSound.isHistory (hs : s.IsSound sha) {plans : List PathPlan}
    (hmem : SaveCall.looking [] plans ∈ s.saves) {image : List UInt8}
    (hencode : encodePlanStore sha (plans.map toStoredRecord)
      ⟨s.coordinator.limits, s.coordinator.runtime.publishSequence⟩ [] = ({ ok := true }, image)) :
    IsHistory sha s.coordinator image := by
  have hquiet := hs.quiet fun hidle => not_looking_mem hidle hmem
  have hplans := hs.saves [] plans hmem
  rw [List.filterMap_nil, List.append_nil] at hplans
  have hfound (plan : PathPlan) (hplan : plan ∈ plans) :
      s.coordinator.runtime.findPlan plan.id = some plan ∧
        plan.IsStorable sha s.coordinator.limits := by
    rw [hplans] at hplan
    obtain ⟨id, -, hfind⟩ := List.mem_filterMap.mp hplan
    obtain ⟨rfl, hstorable⟩ := hs.history.storable id plan hfind
    exact ⟨hfind, hstorable⟩
  have hids : (plans.map (·.id)).Nodup := by
    rw [hplans]
    exact hs.history.nodup.sublist
      (map_filterMap_sublist (fun id plan hfind => (hs.history.storable id plan hfind).1) _)
  have hrecordIds : (plans.map fun plan => (toStoredRecord plan).structural).map (·.plan) =
      plans.map (·.id) := by
    rw [List.map_map]
    rfl
  intro out
  refine ⟨_, (decodePlanStore_encodePlanStore_iff sha _ hencode).mpr
    ⟨hids, fun plan hplan => (hfound plan hplan).2⟩, ?_, fun record hrecord => ?_⟩
  · rw [hrecordIds, List.perm_ext_iff_of_nodup hids s.coordinator.runtime.retained.keys_nodup]
    intro id
    rw [← AList.mem_keys, RuntimeState.mem_retained_iff_findPlan, List.mem_map]
    constructor
    · rintro ⟨plan, hplan, rfl⟩
      exact ⟨plan, (hfound plan hplan).1⟩
    · rintro ⟨plan, hfind⟩
      refine ⟨plan, ?_, (hs.history.storable id plan hfind).1⟩
      rw [hplans]
      rcases hs.history.listed id plan hfind with hlisted | ⟨i, hi⟩
      · exact List.mem_filterMap.mpr ⟨id, hlisted, hfind⟩
      · exact absurd hi (hquiet i id)
  · obtain ⟨plan, hplan, rfl⟩ := List.mem_map.mp hrecord
    exact ⟨plan, (hfound plan hplan).1, rfl⟩

/-- A save that writes its image has found its plans. -/
theorem looking_of_step {codec : PayloadCodec} {index : ℕ} {image : List UInt8}
    (hstep : s.step sha codec (.proceed index) = some s')
    (hsaved : s'.saves[index]? = some (.saved { ok := true } image)) : ∃ plans,
    SaveCall.looking [] plans ∈ s.saves ∧ s'.coordinator = s.coordinator ∧
      encodePlanStore sha (plans.map toStoredRecord)
        ⟨s.coordinator.limits, s.coordinator.runtime.publishSequence⟩ [] =
          ({ ok := true }, image) := by
  obtain ⟨save, hsave, hnext⟩ := Option.bind_eq_some_iff.mp hstep
  obtain ⟨save', hsave', rfl⟩ := Option.map_eq_some_iff.mp hnext
  have hindex : index < s.saves.length := (List.getElem?_eq_some_iff.mp hsave).1
  rw [List.getElem?_set_self hindex] at hsaved
  obtain rfl := Option.some.inj hsaved
  match save, hsave, hsave' with
  | .looking [] plans, hsave, hsave' =>
    obtain ⟨hresult, himage⟩ := SaveCall.saved.inj (Option.some.inj hsave')
    exact ⟨plans, List.mem_of_getElem? hsave, rfl, Prod.ext hresult himage⟩
  | .looking (id :: ids) plans, hsave, hsave' => cases Option.some.inj hsave'
  | .saved _ _, hsave, hsave' => cases hsave'

/-- **A saved image is the history** in any run whose sections keep it: of any starts, publications,
evictions and invalidations. -/
theorem saved_isHistory {limits : ResourceLimits} {snapshot : Option FabricSnapshot}
    {epoch : FabricEpoch} {actions : List StoreAction} {index : ℕ} {image : List UInt8}
    (hrun : run (step sha (payloadCodec sha decodeHello decodeQuery)) (new limits snapshot epoch)
      actions = some s)
    (hmeet : StepsMeet (step sha (payloadCodec sha decodeHello decodeQuery)) (KeepsHistory sha)
      (new limits snapshot epoch) actions)
    (hstep : s.step sha (payloadCodec sha decodeHello decodeQuery) (.proceed index) = some s')
    (hsaved : s'.saves[index]? = some (.saved { ok := true } image)) :
    IsHistory sha s'.coordinator image := by
  have hsound : s.IsSound sha :=
    hmeet.invariant (I := IsSound sha) (fun _ _ _ hkeeps hstep hs => hs.step hkeeps hstep) hrun
      (isSound_new limits snapshot epoch)
  obtain ⟨plans, hmem, hcoordinator, hencode⟩ := looking_of_step hstep hsaved
  rw [hcoordinator]
  exact hsound.isHistory hmem hencode

/-! ### A restart -/

theorem step_proceed {codec : PayloadCodec} {index : ℕ} {save save' : SaveCall}
    (hsave : s.saves[index]? = some save) (hnext : save.next sha s.coordinator = some save') :
    s.step sha codec (.proceed index) = some { s with saves := s.saves.set index save' } := by
  unfold step
  dsimp only
  rw [hsave, Option.bind_some, hnext, Option.map_some]

/-- A coordinator that has recovered the image of one record. -/
def recoveredCoordinator : Coordinator :=
  (Coordinator.new {} none (.ofNat 1)).recoverStore flatHash [selfPathRecord]

/-- The record of its plan. -/
theorem toStoredRecord_selfPath :
    toStoredRecord (Coordinator.recoveredPlan flatHash selfPathRecord) = selfPathRecord :=
  (selfPathRecord_isReadable.2 [] selfPathRecord [] rfl).toStoredRecord_recoveredPlan

/-- What is written for some copies of the plan. -/
def copiesImage (copies : ℕ) : List UInt8 :=
  storeImage flatHash (.ofNat 0) (List.replicate copies selfPathRecord)

theorem encodePlanStore_selfPath {copies : ℕ} (hcopies : copies ≤ 2) :
    encodePlanStore flatHash
        ((List.replicate copies (Coordinator.recoveredPlan flatHash selfPathRecord)).map
          toStoredRecord) ⟨{}, .ofNat 0⟩ [] = ({ ok := true }, copiesImage copies) := by
  have hword : selfPathRecord.word.length ≤ 1000 := by decide +kernel
  have hflat : ((List.replicate copies selfPathRecord).flatMap StoredPlanRecord.word).length ≤
      copies * 1000 := by
    rw [List.length_flatMap, List.map_replicate, List.sum_replicate, smul_eq_mul]
    exact Nat.mul_le_mul_left _ hword
  have hcount : (varWord copies).length ≤ 1 := by
    interval_cases copies <;> decide
  have hencode : encodeImage flatHash (List.replicate copies selfPathRecord) ⟨{}, .ofNat 0⟩ =
      .ok (copiesImage copies) := by
    refine encodeImage_eq_ok_iff.mpr ⟨by decide, ?_, fun record hrecord => ?_, ?_, rfl⟩
    · rw [List.length_replicate]
      exact hcopies.trans (by decide)
    · rw [List.eq_of_mem_replicate hrecord]
      exact ⟨by decide, by decide, rfl, by decide⟩
    · have hceiling : 3000 ≤ storePayloadCeiling {} := by decide
      simp only [storePayload, listWord, List.length_append, List.length_replicate,
        length_littleEndian]
      omega
  rw [List.map_replicate, toStoredRecord_selfPath]
  unfold encodePlanStore
  rw [hencode]
  rfl

theorem loadPlanStore_selfPathImage :
    loadPlanStore flatHash {} selfPathImage [] = some ({ ok := true }, [selfPathRecord]) := by
  unfold loadPlanStore
  rw [if_neg (by decide +kernel)]
  exact decodePlanStore_selfPathImage

theorem start_selfPathImage {c : Coordinator} (hlimits : c.limits = {}) (hsessions : c.sessions = [])
    (codec : PayloadCodec) :
    (⟨c, []⟩ : StoreSystem).step flatHash codec (.start selfPathImage) =
      some ⟨c.recoverStore flatHash [selfPathRecord], []⟩ := by
  have hstart : c.sessions.all (·.isClosed) ∧ validateLimits c.limits = none := by
    rw [hsessions, hlimits]
    decide
  have hrecover : c.recover flatHash selfPathImage = c.recoverStore flatHash [selfPathRecord] := by
    unfold Coordinator.recover
    rw [hlimits, loadPlanStore_selfPathImage]
    rfl
  unfold step
  dsimp only
  rw [if_pos hstart, hrecover]

theorem recoveredCoordinator_spec : recoveredCoordinator.retainedIds = [selfPathRecord.plan] ∧
    recoveredCoordinator.runtime.findPlan selfPathRecord.plan =
      some (Coordinator.recoveredPlan flatHash selfPathRecord) ∧
    recoveredCoordinator.limits = {} ∧
    recoveredCoordinator.runtime.publishSequence = .ofNat 0 := by
  obtain ⟨stats, retained, index, order, hstate, -⟩ :=
    (Coordinator.new {} none (.ofNat 1)).runtime.retain_spec
      (Coordinator.recoveredPlan flatHash selfPathRecord)
  rw [RuntimeState.retain_of_isValid (by decide)] at hstate
  unfold recoveredCoordinator
  rw [recoverStore_cons (by decide)]
  exact ⟨rfl, @RuntimeState.findPlan_retainValid_self (Coordinator.new {} none (.ofNat 1)).runtime
    (Coordinator.recoveredPlan flatHash selfPathRecord), rfl,
    congrArg RuntimeState.publishSequence hstate⟩

theorem step_save (c : Coordinator) (codec : PayloadCodec) :
    (⟨c, []⟩ : StoreSystem).step sha codec .save = some ⟨c, [.looking c.retainedIds []]⟩ := rfl

theorem step_proceed_single {c : Coordinator} {save save' : SaveCall}
    (hnext : save.next sha c = some save') (codec : PayloadCodec) :
    (⟨c, [save]⟩ : StoreSystem).step sha codec (.proceed 0) = some ⟨c, [save']⟩ :=
  step_proceed rfl hnext

/-- The plan is found. -/
theorem next_selfPath {c : Coordinator} (hfind : c.runtime.findPlan selfPathRecord.plan =
      some (Coordinator.recoveredPlan flatHash selfPathRecord)) (left found : ℕ) :
    SaveCall.next flatHash c (.looking (List.replicate (left + 1) selfPathRecord.plan)
        (List.replicate found (Coordinator.recoveredPlan flatHash selfPathRecord))) =
      some (.looking (List.replicate left selfPathRecord.plan)
        (List.replicate (found + 1) (Coordinator.recoveredPlan flatHash selfPathRecord))) := by
  change some (SaveCall.looking (List.replicate left selfPathRecord.plan)
    (List.replicate found (Coordinator.recoveredPlan flatHash selfPathRecord) ++
      (c.runtime.findPlan selfPathRecord.plan).toList)) = _
  rw [hfind, List.replicate_succ']
  rfl

/-- The copies are written. -/
theorem next_selfPath_nil {c : Coordinator} (hlimits : c.limits = {})
    (hsequence : c.runtime.publishSequence = .ofNat 0) {copies : ℕ} (hcopies : copies ≤ 2) :
    SaveCall.next flatHash c (.looking []
        (List.replicate copies (Coordinator.recoveredPlan flatHash selfPathRecord))) =
      some (.saved { ok := true } (copiesImage copies)) := by
  unfold SaveCall.next
  dsimp only
  rw [hlimits, hsequence, encodePlanStore_selfPath hcopies]

/-- The image of a record is recovered and saved again. -/
theorem saved_isHistory_selfPath : IsHistory flatHash recoveredCoordinator (copiesImage 1) := by
  obtain ⟨hids, hfind, hlimits, hsequence⟩ := recoveredCoordinator_spec
  have hstart : (new {} none (.ofNat 1)).step flatHash
      (payloadCodec flatHash (fun _ => .ok {}) fun _ => .ok {}) (.start selfPathImage) =
        some ⟨recoveredCoordinator, []⟩ := start_selfPathImage rfl rfl _
  have hlook : SaveCall.next flatHash recoveredCoordinator (.looking [selfPathRecord.plan] []) =
      some (.looking []
        (List.replicate 1 (Coordinator.recoveredPlan flatHash selfPathRecord))) :=
    next_selfPath hfind 0 0
  have hrun : run (step flatHash (payloadCodec flatHash (fun _ => .ok {}) fun _ => .ok {}))
      (new {} none (.ofNat 1)) [.start selfPathImage, .save, .proceed 0] = some
        ⟨recoveredCoordinator,
          [.looking [] (List.replicate 1 (Coordinator.recoveredPlan flatHash selfPathRecord))]⟩ := by
    rw [run_cons, hstart, Option.bind_some, run_cons, step_save, hids, Option.bind_some, run_cons,
      step_proceed_single hlook]
    rfl
  have hmeet : StepsMeet (step flatHash (payloadCodec flatHash (fun _ => .ok {}) fun _ => .ok {}))
      (KeepsHistory flatHash) (new {} none (.ofNat 1))
        [.start selfPathImage, .save, .proceed 0] := by
    refine stepsMeet_cons.mpr ⟨⟨fun save hsave => absurd hsave List.not_mem_nil,
      fun _ _ _ _ => List.not_mem_nil⟩, fun s hs => ?_⟩
    obtain rfl := Option.some.inj (hstart.symm.trans hs)
    have hquiet : recoveredCoordinator.history.IsQuiet := by
      unfold recoveredCoordinator
      rw [recoverStore_cons (by decide)]
      exact fun _ _ => nofun
    refine stepsMeet_cons.mpr ⟨hquiet, fun s hs => ?_⟩
    exact stepsMeet_cons.mpr ⟨trivial, fun _ _ => stepsMeet_nil⟩
  have hwrite := next_selfPath_nil hlimits hsequence (show 1 ≤ 2 by decide)
  have hsaved : [SaveCall.saved { ok := true } (copiesImage 1)][0]? =
      some (.saved { ok := true } (copiesImage 1)) := rfl
  have hhistory := saved_isHistory hrun hmeet (step_proceed_single hwrite _) hsaved
  exact hhistory

/-! ### Two restarts -/

/-- A coordinator that has recovered the same image twice. -/
def restartedCoordinator : Coordinator := recoveredCoordinator.recoverStore flatHash [selfPathRecord]

/-- The plan of the image is retained once, and listed twice. -/
theorem restartedCoordinator_spec :
    restartedCoordinator.retainedIds = [selfPathRecord.plan, selfPathRecord.plan] ∧
    restartedCoordinator.runtime.findPlan selfPathRecord.plan =
      some (Coordinator.recoveredPlan flatHash selfPathRecord) ∧
    restartedCoordinator.limits = {} ∧
    restartedCoordinator.runtime.publishSequence = .ofNat 0 := by
  obtain ⟨hids, -, hlimits, hsequence⟩ := recoveredCoordinator_spec
  obtain ⟨stats, retained, index, order, hstate, -⟩ := recoveredCoordinator.runtime.retain_spec
    (Coordinator.recoveredPlan flatHash selfPathRecord)
  rw [RuntimeState.retain_of_isValid (by decide)] at hstate
  unfold restartedCoordinator
  rw [recoverStore_cons (by decide)]
  refine ⟨?_, @RuntimeState.findPlan_retainValid_self recoveredCoordinator.runtime
    (Coordinator.recoveredPlan flatHash selfPathRecord), hlimits,
    (congrArg RuntimeState.publishSequence hstate).trans hsequence⟩
  change recoveredCoordinator.retainedIds ++ [selfPathRecord.plan] = _
  rw [hids]
  rfl

/-- No other plan is retained. -/
theorem eq_of_findPlan_restartedCoordinator {id : PathPlanId} {plan : PathPlan}
    (h : restartedCoordinator.runtime.findPlan id = some plan) : id = selfPathRecord.plan := by
  by_contra hne
  have hevicts (state : RuntimeState) := @RuntimeState.findPlan_retainValid_of_ne state
    (Coordinator.recoveredPlan flatHash selfPathRecord) id (by decide) hne
  unfold restartedCoordinator recoveredCoordinator at h
  rw [recoverStore_cons (by decide), recoverStore_cons (by decide)] at h
  rcases hevicts _ with hnone | hsame
  · cases hnone.symm.trans h
  · rcases hevicts (Coordinator.new {} none (.ofNat 1)).runtime with hnone | hfirst
    · cases (hsame.trans hnone).symm.trans h
    · cases (hsame.trans hfirst).symm.trans h

/-- Two entries of a list all of whose entries agree are a repetition. -/
theorem not_nodup_of_forall_eq {α : Type*} {a : α} {l : List α} (hall : ∀ b ∈ l, b = a)
    (hlength : l.length = 2) : ¬ l.Nodup := by
  obtain ⟨first, second, rfl⟩ := List.length_eq_two.mp hlength
  intro hnodup
  have hsame : first = second := (hall first (by simp)).trans (hall second (by simp)).symm
  simp [hsame] at hnodup

/-- The image that is saved after two starts from one image is refused. -/
theorem not_saved_isHistory_restarted :
    ¬ ∀ (sha : List UInt8 → Sha256Digest)
      (decodeHello : List UInt8 → Except (WireStatus × String) HelloPayload)
      (decodeQuery : List UInt8 → Except (WireStatus × String) CurrentnessQueryPayload)
      (limits : ResourceLimits) (snapshot : Option FabricSnapshot) (epoch : FabricEpoch)
      (actions : List StoreAction) (s s' : StoreSystem) (index : ℕ) (image : List UInt8),
      validateLimits limits = none →
      run (step sha (payloadCodec sha decodeHello decodeQuery)) (new limits snapshot epoch) actions =
        some s →
      s.step sha (payloadCodec sha decodeHello decodeQuery) (.proceed index) = some s' →
      s'.saves[index]? = some (.saved { ok := true } image) → IsHistory sha s'.coordinator image := by
  intro h
  obtain ⟨hids, hfind, hlimits, hsequence⟩ := restartedCoordinator_spec
  have hsessions : recoveredCoordinator.sessions = [] := by
    unfold recoveredCoordinator
    rw [recoverStore_cons (by decide)]
    rfl
  have hfirst : (new {} none (.ofNat 1)).step flatHash
      (payloadCodec flatHash (fun _ => .ok {}) fun _ => .ok {}) (.start selfPathImage) =
        some ⟨recoveredCoordinator, []⟩ := start_selfPathImage rfl rfl _
  have hsecond : (⟨recoveredCoordinator, []⟩ : StoreSystem).step flatHash
      (payloadCodec flatHash (fun _ => .ok {}) fun _ => .ok {}) (.start selfPathImage) =
        some ⟨restartedCoordinator, []⟩ :=
    start_selfPathImage recoveredCoordinator_spec.2.2.1 hsessions _
  have hlook : SaveCall.next flatHash restartedCoordinator
      (.looking [selfPathRecord.plan, selfPathRecord.plan] []) = some (.looking [selfPathRecord.plan]
        (List.replicate 1 (Coordinator.recoveredPlan flatHash selfPathRecord))) :=
    next_selfPath hfind 1 0
  have hlook' : SaveCall.next flatHash restartedCoordinator (.looking [selfPathRecord.plan]
        (List.replicate 1 (Coordinator.recoveredPlan flatHash selfPathRecord))) = some (.looking []
        (List.replicate 2 (Coordinator.recoveredPlan flatHash selfPathRecord))) :=
    next_selfPath hfind 0 1
  have hrun : run (step flatHash (payloadCodec flatHash (fun _ => .ok {}) fun _ => .ok {}))
      (new {} none (.ofNat 1))
      [.start selfPathImage, .start selfPathImage, .save, .proceed 0, .proceed 0] = some
        ⟨restartedCoordinator,
          [.looking [] (List.replicate 2 (Coordinator.recoveredPlan flatHash selfPathRecord))]⟩ := by
    rw [run_cons, hfirst, Option.bind_some, run_cons, hsecond, Option.bind_some, run_cons, step_save,
      hids, Option.bind_some, run_cons, step_proceed_single hlook, Option.bind_some, run_cons,
      step_proceed_single hlook']
    rfl
  have hwrite := next_selfPath_nil hlimits hsequence (le_refl 2)
  have hsaved : [SaveCall.saved { ok := true } (copiesImage 2)][0]? =
      some (.saved { ok := true } (copiesImage 2)) := rfl
  obtain ⟨records, hdecode, hperm, hrecords⟩ := h flatHash (fun _ => .ok {}) (fun _ => .ok {}) {}
    none (.ofNat 1) _ _ _ 0 _ (by decide) hrun (step_proceed_single hwrite _) hsaved []
  -- the image holds two records, and one plan is retained
  have hlength := length_eq_of_decodePlanStore (encodePlanStore_selfPath le_rfl) hdecode
  have hnodup := hperm.nodup_iff.mpr restartedCoordinator.runtime.retained.keys_nodup
  have htwo : (records.map fun record => record.plan).length = 2 := by
    rw [List.length_map, hlength, List.length_map, List.length_replicate]
  have hall : ∀ id ∈ records.map fun record => record.plan, id = selfPathRecord.plan := by
    intro id hid
    obtain ⟨record, hrecord, rfl⟩ := List.mem_map.mp hid
    obtain ⟨_, hfound, -⟩ := hrecords record hrecord
    exact eq_of_findPlan_restartedCoordinator hfound
  exact not_nodup_of_forall_eq hall htwo hnodup

end StoreSystem

end PathPlanner
