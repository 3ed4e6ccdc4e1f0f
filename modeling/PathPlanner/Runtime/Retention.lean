import PathPlanner.Runtime.State

/-!
# Retained plans and their index

The retained plans, their order and the reverse index of their dependencies change together. After
any calls the order lists the retained plans, oldest first, and the index tracks them; so a targeted
invalidation reaches exactly the plans that depend on what it names.

## Main definitions

* `RuntimeState.Coherent`: the invariant of the retained plans, for given dependencies
* `firstRetentions`: the plans that calls retain newly, in order

## Main results

* `lookup_applyInvalidation`: an invalidation changes only the currentness of the affected plans
* `Coherent.perform`: every call keeps the invariant
* `retention_coherent`: the invariant after any calls, and what an invalidation then reports
-/

namespace PathPlanner

open SortedList

namespace RuntimeState

variable {state state' : RuntimeState} {plan : PathPlan} {key : PathPlanId}

/-! ## Entries -/

theorem mem_retained_iff : key ∈ state.retained ↔ ∃ entry, state.retained.lookup key = some entry := by
  rw [← AList.lookup_isSome, Option.isSome_iff_exists]

theorem lookup_mapRetained (f : RetainedPlan → Currentness)
    (retained : AList (fun _ : PathPlanId => RetainedPlan)) :
    (mapRetained f retained).lookup key =
      (retained.lookup key).map fun entry => { entry with currentness := f entry } :=
  List.dlookup_map₂
    (f := fun _ (entry : RetainedPlan) => ({ entry with currentness := f entry } : RetainedPlan)) key

/-! ## The effect of an invalidation -/

section Invalidation

/-- The entry of a plan after an invalidation that affects it. -/
def invalidatedEntry (snapshot : Option FabricSnapshot) (entry : RetainedPlan) : RetainedPlan :=
  { entry with currentness := invalidatedCurrentness snapshot entry.plan }

/-- What the body of the loop leaves: the retained plans change at the key, the report grows, and
the rest of the state, apart from the statistics, is as before. -/
theorem invalidatePlan_spec (current : RuntimeState × InvalidationReport) (key : PathPlanId) :
    ∃ stats, (invalidatePlan current key).1 = { current.1 with
        stats := stats
        retained := ((current.1.retained.lookup key).elim current.1.retained fun entry =>
          current.1.retained.insert key (invalidatedEntry current.1.snapshot entry)) } ∧
      (invalidatePlan current key).2.affected = current.2.affected ++
        ((current.1.retained.lookup key).map (·.plan.id)).toList ∧
      (invalidatePlan current key).2.conservative = current.2.conservative := by
  obtain ⟨state, report⟩ := current
  unfold invalidatePlan
  dsimp only
  cases state.retained.lookup key with
  | none => exact ⟨state.stats, rfl, (List.append_nil _).symm, rfl⟩
  | some entry =>
    dsimp only
    split_ifs
    · exact ⟨_, rfl, rfl, rfl⟩
    · exact ⟨_, rfl, rfl, rfl⟩

/-- The loop over the affected keys. -/
theorem foldl_invalidatePlan_spec (keys : List PathPlanId)
    (current : RuntimeState × InvalidationReport) : ∃ stats retained,
    (keys.foldl invalidatePlan current).1 =
        { current.1 with stats := stats, retained := retained } ∧
      (∀ id, retained.lookup id = (current.1.retained.lookup id).map fun entry =>
        if id ∈ keys then invalidatedEntry current.1.snapshot entry else entry) ∧
      (keys.foldl invalidatePlan current).2.affected = current.2.affected ++
        keys.filterMap (fun key => (current.1.retained.lookup key).map (·.plan.id)) ∧
      (keys.foldl invalidatePlan current).2.conservative = current.2.conservative := by
  induction keys generalizing current with
  | nil => exact ⟨current.1.stats, current.1.retained, rfl, by simp, by simp, rfl⟩
  | cons key keys ih =>
    obtain ⟨stats, hstate, haffected, hconservative⟩ := invalidatePlan_spec current key
    obtain ⟨stats', retained, hstate', hlookup, haffected', hconservative'⟩ :=
      ih (invalidatePlan current key)
    have hentry (id : PathPlanId) : (invalidatePlan current key).1.retained.lookup id =
        (current.1.retained.lookup id).map fun entry =>
          if id = key then invalidatedEntry current.1.snapshot entry else entry := by
      rw [hstate]
      dsimp only
      cases h : current.1.retained.lookup key with
      | none =>
        by_cases hid : id = key
        · subst hid
          simp [h]
        · simp [hid]
      | some entry =>
        by_cases hid : id = key
        · subst hid
          simp [h]
        · simp [hid, AList.lookup_insert_ne hid]
    refine ⟨stats', retained, ?_, fun id => ?_, ?_, hconservative'.trans hconservative⟩
    · rw [List.foldl_cons, hstate', hstate]
    · rw [hlookup, hentry, Option.map_map]
      -- a second invalidation of an entry has the effect of the first
      cases current.1.retained.lookup id with
      | none => rfl
      | some entry =>
        rw [hstate]
        by_cases hid : id = key <;> by_cases hmem : id ∈ keys <;>
          simp [hid, hmem, invalidatedEntry]
    · -- the identities of the entries do not change
      have hids : (fun k => ((invalidatePlan current key).1.retained.lookup k).map (·.plan.id)) =
          fun k => (current.1.retained.lookup k).map (·.plan.id) := by
        funext k
        rw [hentry, Option.map_map]
        cases current.1.retained.lookup k with
        | none => rfl
        | some entry => by_cases hk : k = key <;> simp [hk, invalidatedEntry]
      rw [List.foldl_cons, haffected', haffected, hids, List.append_assoc, List.filterMap_cons]
      cases current.1.retained.lookup key <;> rfl

/-- **An invalidation** advances the publication sequence, gives the affected entries a new
currentness and reports them; plans, order and index stay as they are. -/
theorem applyInvalidation_spec (state : RuntimeState) (notice : InvalidationNotice) :
    ∃ stats retained, (state.applyInvalidation notice).1 = { state with
        publishSequence := PlanPublishSequence.next state.publishSequence
        stats := stats
        retained := retained } ∧
      (∀ id, retained.lookup id = (state.retained.lookup id).map fun entry =>
        if id ∈ state.affectedKeys notice then invalidatedEntry state.snapshot entry else entry) ∧
      (state.applyInvalidation notice).2.affected = (state.affectedKeys notice).filterMap
        (fun key => (state.retained.lookup key).map (·.plan.id)) ∧
      (state.applyInvalidation notice).2.conservative = state.isConservative notice := by
  obtain ⟨stats, retained, hstate, hlookup, haffected, hconservative⟩ :=
    foldl_invalidatePlan_spec (state.affectedKeys notice)
      ({ state with
        stats := { state.stats with invalidationsApplied := state.stats.invalidationsApplied + 1 }
        publishSequence := PlanPublishSequence.next state.publishSequence },
        { conservative := state.isConservative notice })
  exact ⟨stats, retained, hstate, hlookup, haffected, hconservative⟩

theorem mem_affectedKeys {notice : InvalidationNotice} : key ∈ state.affectedKeys notice ↔
    if state.isConservative notice then key ∈ state.retained
    else ∃ s ∈ notice.subjects, key ∈ state.index.bucket s := by
  rw [affectedKeys, mem_unique (pairwise_sortBy id _), (perm_sortBy id _).mem_iff]
  split_ifs
  · exact AList.mem_keys.symm
  · rw [List.mem_flatMap]

end Invalidation

/-! ## The invariant -/

/-- The retained plans are filed under their identities, the order lists them once each within the
limit, and the index tracks them. -/
structure Coherent (deps : PathPlanId → List SubjectKey) (state : RuntimeState) : Prop where
  entry : ∀ id entry, state.retained.lookup id = some entry →
    entry.plan.id = id ∧ collectPlanDependencies entry.plan = deps id
  order_nodup : state.retentionOrder.Nodup
  mem_order : ∀ id, id ∈ state.retentionOrder ↔ id ∈ state.retained
  order_le : state.retentionOrder.length ≤ state.limits.maxRetainedPlans.toNat
  index : state.index.Tracks state.limits.maxReverseDependencyEntries.toNat
    {id | id ∈ state.retained} deps

variable {deps : PathPlanId → List SubjectKey}

/-- The order is as long as the map is large. -/
theorem Coherent.length_retained (h : state.Coherent deps) :
    state.retained.entries.length = state.retentionOrder.length := by
  have hperm : state.retentionOrder.Perm state.retained.keys :=
    (List.perm_ext_iff_of_nodup h.order_nodup state.retained.keys_nodup).mpr fun id =>
      (h.mem_order id).trans AList.mem_keys
  rw [hperm.length_eq, AList.keys, List.keys, List.length_map]

/-- A new runtime retains nothing. -/
theorem coherent_new (limits : ResourceLimits) (snapshot : Option FabricSnapshot)
    (hasAuthority : Bool) : (new limits snapshot hasAuthority).Coherent deps where
  entry := fun id entry h => by simp [new] at h
  order_nodup := List.nodup_nil
  mem_order := fun id => by simp [new, ← AList.lookup_isSome]
  order_le := Nat.zero_le _
  index := by
    have hempty : {id | id ∈ (new limits snapshot hasAuthority).retained} = ∅ := by
      ext id
      simp [new, ← AList.lookup_isSome]
    rw [hempty]
    exact ReverseIndex.tracks_empty

/-- A change of the currentness of entries keeps the invariant. -/
theorem Coherent.of_lookup (h : state.Coherent deps) (hlimits : state'.limits = state.limits)
    (horder : state'.retentionOrder = state.retentionOrder) (hindex : state'.index = state.index)
    (hlookup : ∀ id, (state'.retained.lookup id).map (·.plan) =
      (state.retained.lookup id).map (·.plan)) : state'.Coherent deps := by
  have hmem (id : PathPlanId) : id ∈ state'.retained ↔ id ∈ state.retained := by
    rw [← AList.lookup_isSome, ← AList.lookup_isSome, ← Option.isSome_map (f := (·.plan)), hlookup,
      Option.isSome_map]
  refine ⟨fun id entry he => ?_, horder ▸ h.order_nodup, fun id => ?_, ?_, ?_⟩
  · have hplan := hlookup id
    rw [he, Option.map_some] at hplan
    obtain ⟨entry', he', hp⟩ := Option.map_eq_some_iff.mp hplan.symm
    rw [← hp]
    exact h.entry id entry' he'
  · rw [horder, h.mem_order, hmem]
  · rw [horder, hlimits]
    exact h.order_le
  · simp only [hmem, hindex, hlimits]
    exact h.index

theorem Coherent.applyInvalidation (h : state.Coherent deps) (notice : InvalidationNotice) :
    (state.applyInvalidation notice).1.Coherent deps := by
  obtain ⟨stats, retained, hstate, hlookup, _⟩ := state.applyInvalidation_spec notice
  rw [hstate]
  refine h.of_lookup rfl rfl rfl fun id => ?_
  rw [hlookup, Option.map_map]
  cases state.retained.lookup id with
  | none => rfl
  | some entry => simp [invalidatedEntry, apply_ite RetainedPlan.plan]

theorem Coherent.publishSnapshot (h : state.Coherent deps) (snapshot : Option FabricSnapshot) :
    (state.publishSnapshot snapshot).Coherent deps :=
  h.of_lookup rfl rfl rfl fun _ => rfl

theorem Coherent.advanceEpoch (h : state.Coherent deps) (epoch : FabricEpoch)
    (conservativeRecovery : Bool) :
    (state.advanceEpoch epoch conservativeRecovery).state.Coherent deps := by
  unfold RuntimeState.advanceEpoch
  split_ifs with hle hrec
  · exact h
  · refine h.of_lookup rfl rfl rfl fun id => ?_
    dsimp only
    rw [lookup_mapRetained, Option.map_map]
    rfl
  · exact h.of_lookup rfl rfl rfl fun _ => rfl

/-! ## Retaining a plan -/

/-- The eviction loop changes only the containers and the statistics, drops the oldest plans from
the order, and keeps the entries that stay. -/
theorem makeRoom_spec (state : RuntimeState) (order : List PathPlanId) :
    ∃ stats retained index left, state.makeRoom order = { state with
        stats := stats
        retained := retained
        index := index
        retentionOrder := left } ∧
      left <:+ order ∧
      ∀ id, retained.lookup id = none ∨ retained.lookup id = state.retained.lookup id := by
  induction order generalizing state with
  | nil => exact ⟨_, _, _, _, rfl, List.suffix_rfl, fun _ => Or.inr rfl⟩
  | cons victim order ih =>
    unfold makeRoom
    split_ifs
    · exact ⟨_, _, _, _, rfl, List.suffix_rfl, fun _ => Or.inr rfl⟩
    · split
      · obtain ⟨stats, retained, index, left, heq, hleft, hlookup⟩ := ih state
        exact ⟨stats, retained, index, left, heq, hleft.trans (List.suffix_cons _ _), hlookup⟩
      · obtain ⟨stats, retained, index, left, heq, hleft, hlookup⟩ := ih _
        refine ⟨stats, retained, index, left, heq, hleft.trans (List.suffix_cons _ _), fun id => ?_⟩
        rcases hlookup id with hnone | hsame
        · exact Or.inl hnone
        · by_cases hv : id = victim
          · subst hv
            exact Or.inl (hsame.trans (AList.lookup_erase _ _))
          · exact Or.inr (hsame.trans (AList.lookup_erase_ne hv))

/-- Retaining a plan changes only the containers and the statistics; another plan's entry stays, or
is evicted. -/
theorem retain_spec (state : RuntimeState) (plan : PathPlan) :
    ∃ stats retained index order, (state.retain plan).2 = { state with
        stats := stats
        retained := retained
        index := index
        retentionOrder := order } ∧
      ∀ id, (plan.id.isValid = true → id ≠ plan.id) →
        retained.lookup id = none ∨ retained.lookup id = state.retained.lookup id := by
  unfold retain retainValid
  split_ifs with hvalid
  · obtain ⟨stats, retained, index, left, heq, _, hlookup⟩ :=
      state.makeRoom_spec state.retentionOrder
    refine ⟨stats, _, _, _, by rw [heq], fun id hne => ?_⟩
    rw [AList.lookup_insert_ne (hne hvalid)]
    exact hlookup id
  · exact ⟨_, _, _, _, rfl, fun id hne => Or.inr (AList.lookup_insert_ne (hne hvalid))⟩
  · exact ⟨_, _, _, _, rfl, fun id _ => Or.inr rfl⟩

/-- **The eviction loop** keeps the invariant and leaves room. -/
theorem Coherent.makeRoom {order : List PathPlanId}
    (h : ({ state with retentionOrder := order } : RuntimeState).Coherent deps)
    (hlimit : 0 < state.limits.maxRetainedPlans.toNat) :
    (state.makeRoom order).Coherent deps ∧
      (state.makeRoom order).retentionOrder.length < state.limits.maxRetainedPlans.toNat := by
  induction order generalizing state with
  | nil => exact ⟨h, hlimit⟩
  | cons victim order ih =>
    unfold RuntimeState.makeRoom
    have hlength := h.length_retained
    dsimp only at hlength
    split_ifs with hroom
    · exact ⟨h, hlength ▸ hroom⟩
    · obtain ⟨entry, he⟩ := mem_retained_iff.mp
        ((h.mem_order victim).mp List.mem_cons_self)
      obtain ⟨hid, hdeps⟩ := h.entry victim entry he
      dsimp only at he
      rw [he]
      dsimp only
      rw [hid, hdeps]
      have hnodup := List.nodup_cons.mp h.order_nodup
      have hmem (id : PathPlanId) :
          id ∈ state.retained.erase victim ↔ id ≠ victim ∧ id ∈ state.retained := AList.mem_erase
      have hset : {id | id ∈ state.retained.erase victim} =
          {id | id ∈ state.retained} \ {victim} := by
        ext id
        exact (hmem id).trans and_comm
      -- the oldest plan is dropped from the map, the order and the index
      have hdropped : ({ state with
          index := state.index.drop victim (deps victim)
          retained := state.retained.erase victim
          stats := { state.stats with plansRetired := state.stats.plansRetired + 1 }
          retentionOrder := order } : RuntimeState).Coherent deps :=
        { entry := by
            intro id entry' he'
            by_cases hv : id = victim
            · subst hv
              rw [AList.lookup_erase] at he'
              cases he'
            · rw [AList.lookup_erase_ne hv] at he'
              exact h.entry id entry' he'
          order_nodup := hnodup.2
          mem_order := by
            intro id
            rw [hmem, ← h.mem_order, List.mem_cons]
            constructor
            · intro hin
              exact ⟨fun heq => hnodup.1 (heq ▸ hin), Or.inr hin⟩
            · rintro ⟨hne, heq | hin⟩
              · exact absurd heq hne
              · exact hin
          order_le := (Nat.le_succ _).trans h.order_le
          index := by
            dsimp only
            rw [hset]
            exact h.index.drop }
      exact ih hdropped hlimit

theorem Coherent.retainValid (h : state.Coherent deps)
    (hdeps : collectPlanDependencies plan = deps plan.id)
    (hlimit : 0 < state.limits.maxRetainedPlans.toNat) : (state.retainValid plan).Coherent deps := by
  unfold RuntimeState.retainValid
  split_ifs with hnone
  · -- a new plan: after the eviction it goes to the end of the order
    obtain ⟨hc, hlen⟩ := Coherent.makeRoom h hlimit
    obtain ⟨_, _, _, _, hroom, _, hlookup⟩ := state.makeRoom_spec state.retentionOrder
    have hlim : (state.makeRoom state.retentionOrder).limits = state.limits := by rw [hroom]
    have hlookup : ∀ id, (state.makeRoom state.retentionOrder).retained.lookup id = none ∨
        (state.makeRoom state.retentionOrder).retained.lookup id = state.retained.lookup id := by
      rw [hroom]
      exact hlookup
    generalize state.makeRoom state.retentionOrder = room at hc hlen hlim hlookup
    have hfree : room.retained.lookup plan.id = none := by
      rcases hlookup plan.id with hl | hl
      · exact hl
      · exact hl.trans hnone
    have hnew : plan.id ∉ room.retentionOrder := by
      rw [hc.mem_order, ← AList.lookup_eq_none]
      exact hfree
    dsimp only
    rw [hdeps]
    refine ⟨fun id entry he => ?_, ?_, fun id => ?_, ?_, ?_⟩
    · by_cases hid : id = plan.id
      · subst hid
        rw [AList.lookup_insert] at he
        obtain rfl := Option.some.inj he
        exact ⟨rfl, hdeps⟩
      · rw [AList.lookup_insert_ne hid] at he
        exact hc.entry id entry he
    · exact List.nodup_append.mpr ⟨hc.order_nodup, List.nodup_singleton _,
        fun a ha b hb hab => hnew (by rw [← List.mem_singleton.mp hb, ← hab]; exact ha)⟩
    · rw [List.mem_append, List.mem_singleton, AList.mem_insert, hc.mem_order, or_comm]
    · rw [List.length_append, List.length_singleton, hlim]
      omega
    · have hset : {id | id ∈ room.retained.insert plan.id ⟨plan, initialCurrentness plan⟩} =
          insert plan.id {id | id ∈ room.retained} := by
        ext id
        exact AList.mem_insert _
      dsimp only
      rw [hset]
      exact hc.index.add
  · -- an entry that exists: its plan is replaced by one with the same dependencies
    obtain ⟨old, hold⟩ := Option.ne_none_iff_exists'.mp hnone
    have hmem (id : PathPlanId) :
        id ∈ state.retained.insert plan.id ⟨plan, initialCurrentness plan⟩ ↔ id ∈ state.retained := by
      rw [AList.mem_insert]
      constructor
      · rintro (rfl | hin)
        · exact mem_retained_iff.mpr ⟨old, hold⟩
        · exact hin
      · exact Or.inr
    refine ⟨fun id entry he => ?_, h.order_nodup, fun id => ?_, h.order_le, ?_⟩
    · by_cases hid : id = plan.id
      · subst hid
        rw [AList.lookup_insert] at he
        obtain rfl := Option.some.inj he
        exact ⟨rfl, hdeps⟩
      · rw [AList.lookup_insert_ne hid] at he
        exact h.entry id entry he
    · exact (h.mem_order id).trans (hmem id).symm
    · simp only [hmem]
      exact h.index

/-! ## Runs -/

/-- The limits never change. -/
theorem perform_limits (state : RuntimeState) (op : RuntimeOperation) :
    (state.perform op).limits = state.limits := by
  cases op with
  | publishSnapshot snapshot => rfl
  | applyInvalidation notice =>
    obtain ⟨_, _, hstate, _⟩ := state.applyInvalidation_spec notice
    change (state.applyInvalidation notice).1.limits = _
    rw [hstate]
  | advanceEpoch epoch conservativeRecovery =>
    change (state.advanceEpoch epoch conservativeRecovery).state.limits = _
    unfold advanceEpoch
    split_ifs <;> rfl
  | retain plan =>
    obtain ⟨_, _, _, _, heq, _⟩ := state.retain_spec plan
    change (state.retain plan).2.limits = _
    rw [heq]

/-- The plans that calls retain. -/
def plansRetained (ops : List RuntimeOperation) : List PathPlan :=
  ops.filterMap fun
    | .retain plan => some plan
    | _ => none

/-- **Every call** keeps the invariant. -/
theorem Coherent.perform (h : state.Coherent deps)
    (hlimit : 0 < state.limits.maxRetainedPlans.toNat) {op : RuntimeOperation}
    (hdeps : ∀ plan ∈ plansRetained [op], collectPlanDependencies plan = deps plan.id) :
    (state.perform op).Coherent deps := by
  cases op with
  | publishSnapshot snapshot => exact h.publishSnapshot snapshot
  | applyInvalidation notice => exact h.applyInvalidation notice
  | advanceEpoch epoch conservativeRecovery => exact h.advanceEpoch epoch conservativeRecovery
  | retain plan =>
    change (state.retain plan).2.Coherent deps
    unfold RuntimeState.retain
    split_ifs
    · exact h.retainValid (hdeps plan (by simp [plansRetained])) hlimit
    · exact h

/-- The state after calls. -/
def performAll (state : RuntimeState) (ops : List RuntimeOperation) : RuntimeState :=
  ops.foldl perform state

theorem Coherent.performAll {ops : List RuntimeOperation} (h : state.Coherent deps)
    (hlimit : 0 < state.limits.maxRetainedPlans.toNat)
    (hdeps : ∀ plan ∈ plansRetained ops, collectPlanDependencies plan = deps plan.id) :
    (state.performAll ops).Coherent deps := by
  induction ops generalizing state with
  | nil => exact h
  | cons op ops ih =>
    have hsplit : plansRetained (op :: ops) = plansRetained [op] ++ plansRetained ops := by
      change plansRetained ([op] ++ ops) = _
      exact List.filterMap_append
    simp only [hsplit, List.mem_append] at hdeps
    apply ih
    · exact h.perform hlimit fun plan hp => hdeps plan (Or.inl hp)
    · rw [perform_limits]
      exact hlimit
    · exact fun plan hp => hdeps plan (Or.inr hp)

/-- The plan that a call retains newly. -/
def firstRetention (state : RuntimeState) : RuntimeOperation → List PathPlanId
  | .retain plan =>
    if plan.id.isValid ∧ state.retained.lookup plan.id = none then [plan.id] else []
  | _ => []

/-- The plans that calls retain newly, in the order of the calls. -/
def firstRetentions : RuntimeState → List RuntimeOperation → List PathPlanId
  | _, [] => []
  | state, op :: ops => state.firstRetention op ++ firstRetentions (state.perform op) ops

/-- A call extends the order by what it retains newly, and may drop the oldest plans. -/
theorem retentionOrder_perform (state : RuntimeState) (op : RuntimeOperation) :
    (state.perform op).retentionOrder <:+ state.retentionOrder ++ state.firstRetention op := by
  cases op with
  | publishSnapshot snapshot => exact (List.append_nil _).symm ▸ List.suffix_rfl
  | applyInvalidation notice =>
    obtain ⟨_, _, hstate, _⟩ := state.applyInvalidation_spec notice
    change (state.applyInvalidation notice).1.retentionOrder <:+ _ ++ []
    rw [hstate, List.append_nil]
  | advanceEpoch epoch conservativeRecovery =>
    change (state.advanceEpoch epoch conservativeRecovery).state.retentionOrder <:+ _ ++ []
    rw [List.append_nil]
    unfold advanceEpoch
    split_ifs <;> exact List.suffix_rfl
  | retain plan =>
    change (state.retain plan).2.retentionOrder <:+ state.retentionOrder ++
      if plan.id.isValid ∧ state.retained.lookup plan.id = none then [plan.id] else []
    by_cases hfresh : plan.id.isValid = true ∧ state.retained.lookup plan.id = none
    · rw [if_pos hfresh]
      unfold retain retainValid
      rw [if_pos hfresh.1, if_pos hfresh.2]
      obtain ⟨_, _, _, _, heq, hleft, _⟩ := state.makeRoom_spec state.retentionOrder
      rw [heq]
      exact List.suffix_append_self_iff.mpr hleft
    · rw [if_neg hfresh, List.append_nil]
      unfold retain retainValid
      split_ifs with hvalid hnone
      · exact absurd ⟨hvalid, hnone⟩ hfresh
      · exact List.suffix_rfl
      · exact List.suffix_rfl

theorem retentionOrder_performAll (state : RuntimeState) (ops : List RuntimeOperation) :
    (state.performAll ops).retentionOrder <:+
      state.retentionOrder ++ state.firstRetentions ops := by
  induction ops generalizing state with
  | nil => exact (List.append_nil _).symm ▸ List.suffix_rfl
  | cons op ops ih =>
    refine (ih (state.perform op)).trans ?_
    rw [firstRetentions, ← List.append_assoc]
    exact List.suffix_append_self_iff.mpr (state.retentionOrder_perform op)

/-! ## The invariant after any calls -/

/-- What the containers of a runtime say about each other. -/
structure RetentionAgrees (state : RuntimeState) : Prop where
  size_le : state.retained.entries.length ≤ state.limits.maxRetainedPlans.toNat
  order_nodup : state.retentionOrder.Nodup
  mem_order : ∀ id, id ∈ state.retentionOrder ↔ id ∈ state.retained
  counted : state.index.entries = state.index.size
  bounded : state.index.entries ≤ state.limits.maxReverseDependencyEntries.toNat
  sound : ∀ subject, ∀ id ∈ state.index.bucket subject, ∃ entry,
    state.retained.lookup id = some entry ∧ subject ∈ collectPlanDependencies entry.plan
  filed : state.index.complete = true → ∀ id entry, state.retained.lookup id = some entry →
    ∀ subject ∈ collectPlanDependencies entry.plan, id ∈ state.index.bucket subject

/-- A report names the affected plans: those that depend on a subject of the notice, or all of them
when it is conservative. -/
def ReportsExactly (state : RuntimeState) (notice : InvalidationNotice)
    (report : InvalidationReport) : Prop :=
  ∀ id, id ∈ report.affected ↔ ∃ entry, state.retained.lookup id = some entry ∧
    (report.conservative = true ∨
      ∃ subject ∈ notice.subjects, subject ∈ collectPlanDependencies entry.plan)

theorem Coherent.retentionAgrees (h : state.Coherent deps) : state.RetentionAgrees where
  size_le := h.length_retained.trans_le h.order_le
  order_nodup := h.order_nodup
  mem_order := h.mem_order
  counted := h.index.counted
  bounded := h.index.bounded
  sound := by
    intro subject id hid
    obtain ⟨hretained, hsubject⟩ := h.index.sound subject id hid
    obtain ⟨entry, he⟩ := mem_retained_iff.mp hretained
    exact ⟨entry, he, (h.entry id entry he).2 ▸ hsubject⟩
  filed := by
    intro hcomplete id entry he subject hsubject
    rw [(h.entry id entry he).2] at hsubject
    exact h.index.filed hcomplete id (mem_retained_iff.mpr ⟨entry, he⟩) subject hsubject

/-- **An invalidation** of a coherent runtime reports exactly the plans that it affects. -/
theorem Coherent.reportsExactly (h : state.Coherent deps) (notice : InvalidationNotice) :
    state.ReportsExactly notice (state.applyInvalidation notice).2 := by
  obtain ⟨_, _, _, _, haffected, hconservative⟩ := state.applyInvalidation_spec notice
  intro id
  rw [haffected, hconservative, List.mem_filterMap]
  -- an entry is reported under its own identity, which is its key
  have hreported : (∃ key ∈ state.affectedKeys notice,
      (state.retained.lookup key).map (·.plan.id) = some id) ↔
      id ∈ state.affectedKeys notice ∧ id ∈ state.retained := by
    constructor
    · rintro ⟨key, hkey, hid⟩
      obtain ⟨entry, he, rfl⟩ := Option.map_eq_some_iff.mp hid
      rw [(h.entry key entry he).1]
      exact ⟨hkey, mem_retained_iff.mpr ⟨entry, he⟩⟩
    · rintro ⟨hkey, hretained⟩
      obtain ⟨entry, he⟩ := mem_retained_iff.mp hretained
      exact ⟨id, hkey, by rw [he, Option.map_some, (h.entry id entry he).1]⟩
  rw [hreported, mem_affectedKeys]
  by_cases hc : state.isConservative notice = true
  · simp only [hc, if_true, true_or, and_true, and_self]
    exact mem_retained_iff
  · -- a targeted notice is answered by the index, which is complete
    have hcomplete : state.index.complete = true := by
      unfold isConservative at hc
      cases hindex : state.index.complete <;> simp_all
    have hc' : state.isConservative notice = false := by simpa using hc
    simp only [hc', Bool.false_eq_true, if_false, false_or]
    simp only [h.index.mem_bucket_iff hcomplete]
    constructor
    · rintro ⟨⟨subject, hs, hretained, hsubject⟩, _⟩
      obtain ⟨entry, he⟩ := mem_retained_iff.mp hretained
      exact ⟨entry, he, subject, hs, (h.entry id entry he).2 ▸ hsubject⟩
    · rintro ⟨entry, he, subject, hs, hsubject⟩
      have hretained := mem_retained_iff.mpr ⟨entry, he⟩
      exact ⟨⟨subject, hs, hretained, (h.entry id entry he).2 ▸ hsubject⟩, hretained⟩

/-- The dependencies of the plan with an identity, when plans with one identity have the same. -/
theorem exists_dependencies {plans : List PathPlan}
    (h : ∀ p ∈ plans, ∀ q ∈ plans, p.id = q.id →
      collectPlanDependencies p = collectPlanDependencies q) :
    ∃ deps : PathPlanId → List SubjectKey,
      ∀ p ∈ plans, collectPlanDependencies p = deps p.id := by
  refine ⟨fun id => (plans.find? (·.id = id)).elim [] collectPlanDependencies, fun p hp => ?_⟩
  dsimp only
  cases hfind : plans.find? (·.id = p.id) with
  | none => exact absurd (decide_eq_true rfl) (List.find?_eq_none.mp hfind p hp)
  | some q =>
    have hid : q.id = p.id := by simpa using List.find?_some hfind
    exact h p hp q (List.mem_of_find?_eq_some hfind) hid.symm

/-- **Retention and the reverse index** agree after any calls: the order is the retained plans in
the order of their first retention, the index is sound, and complete while it is marked so, and an
invalidation reports exactly the plans that it affects. -/
theorem retention_coherent {limits : ResourceLimits} (hlimits : validateLimits limits = none)
    (snapshot : Option FabricSnapshot) (hasAuthority : Bool) {ops : List RuntimeOperation}
    (hdeps : ∀ p ∈ plansRetained ops, ∀ q ∈ plansRetained ops, p.id = q.id →
      collectPlanDependencies p = collectPlanDependencies q) :
    ((new limits snapshot hasAuthority).performAll ops).RetentionAgrees ∧
      ((new limits snapshot hasAuthority).performAll ops).retentionOrder <:+
        (new limits snapshot hasAuthority).firstRetentions ops ∧
      ∀ notice, ((new limits snapshot hasAuthority).performAll ops).ReportsExactly notice
        (((new limits snapshot hasAuthority).performAll ops).applyInvalidation notice).2 := by
  obtain ⟨deps, hdeps⟩ := exists_dependencies hdeps
  have hcoherent := (coherent_new limits snapshot hasAuthority).performAll
    (maxRetainedPlans_pos hlimits) hdeps
  exact ⟨hcoherent.retentionAgrees, retentionOrder_performAll _ ops, hcoherent.reportsExactly⟩

/-- A plan along one link between two nodes. -/
def linkPlan (name source target : UInt8) : PathPlan where
  id := .tagged 0 name
  candidates := [{
    id := .tagged 0 name
    path :=
      { source := .tagged 0 source
        destination := .tagged 0 target
        nodes := [.tagged 0 source, .tagged 0 target]
        hops := [{
          link := .tagged 0 name
          source := .tagged 0 source
          target := .tagged 0 target
          fromPort := .tagged 0 source
          toPort := .tagged 0 target }] }
    cost := ⟨.ofNat 0, .ofNat 0, .ofNat 0, .ofNat 0, .ofNat 0, .ofNat 0, 0, 0⟩ }]

/-- Three plans are retained where there is room for two: the first one again after the second, and
then the third, which evicts it. -/
def retainThree : List RuntimeOperation :=
  [.retain (linkPlan 1 1 2), .retain (linkPlan 2 2 3), .retain (linkPlan 1 1 2),
    .applyInvalidation { nodes := [.tagged 0 1] }, .retain (linkPlan 3 3 4)]

/-- What is left of them. -/
def twoOfThree : RuntimeState :=
  (new { maxRetainedPlans := 2 } none false).performAll retainThree

/-- The node that two plans share is invalidated, and with it the two that are left. -/
theorem retention_coherent_retainThree :
    (twoOfThree.retentionOrder = [.tagged 0 2, .tagged 0 3] ∧ twoOfThree.index.complete = true) ∧
      (twoOfThree.RetentionAgrees ∧
        twoOfThree.retentionOrder <:+
          (new { maxRetainedPlans := 2 } none false).firstRetentions retainThree ∧
        ∀ notice, twoOfThree.ReportsExactly notice (twoOfThree.applyInvalidation notice).2) ∧
      (twoOfThree.applyInvalidation { nodes := [.tagged 0 2] }).2.affected = [.tagged 0 2] ∧
      (twoOfThree.applyInvalidation { nodes := [.tagged 0 3] }).2.affected =
        [.tagged 0 2, .tagged 0 3] :=
  ⟨by decide +kernel, retention_coherent (by decide) none false (by decide +kernel), by decide +kernel,
    by decide +kernel⟩

end RuntimeState

end PathPlanner
