import PathPlanner.Coordinator.Dispatch

/-!
# The history of a coordinator

The plans that a coordinator has accepted are retained by its runtime, and their identities are
listed a second time. A thread retains a plan in one section and lists it in the next one.

## Main definitions

* `RuntimeState.findPlan`: the plan that is retained under an identity
* `History`: the part of a coordinator that its history depends on
* `History.Step`: what a section does to it

## Main results

* `RuntimeState.findPlan_perform`: only a retention changes which plans are retained
* `Coordinator.history_step`: **every section** takes such a step
-/

namespace PathPlanner

/-! ## Retained plans -/

/-- The call does not retain a plan. -/
def RuntimeOperation.IsPassive (op : RuntimeOperation) : Prop := ∀ plan, op ≠ .retain plan

namespace RuntimeState

variable {state : RuntimeState} {plan : PathPlan} {id : PathPlanId}

/-- `PlannerRuntime::FindPlan`. -/
def findPlan (state : RuntimeState) (id : PathPlanId) : Option PathPlan :=
  (state.retained.lookup id).map (·.plan)

theorem mem_retained_iff_findPlan : id ∈ state.retained ↔ ∃ plan, state.findPlan id = some plan := by
  rw [← AList.lookup_isSome, ← Option.isSome_iff_exists]
  unfold findPlan
  rw [Option.isSome_map]

/-- **A passive call** does not change which plans are retained. -/
theorem findPlan_perform {op : RuntimeOperation} (h : op.IsPassive) (id : PathPlanId) :
    (state.perform op).findPlan id = state.findPlan id := by
  cases op with
  | publishSnapshot snapshot => rfl
  | applyInvalidation notice =>
    obtain ⟨stats, retained, hstate, hlookup, -⟩ := state.applyInvalidation_spec notice
    have hretained : (state.perform (.applyInvalidation notice)).retained = retained :=
      congrArg RuntimeState.retained hstate
    unfold findPlan
    rw [hretained, hlookup, Option.map_map]
    refine congrArg (Option.map · _) (funext fun entry => ?_)
    -- the invalidation of an entry leaves its plan alone
    change (if _ then invalidatedEntry state.snapshot entry else entry).plan = entry.plan
    split_ifs
    · rfl
    · rfl
  | advanceEpoch epoch conservativeRecovery =>
    rcases lt_or_ge state.epoch epoch with hlt | hle
    · obtain ⟨stats, hstate⟩ := perform_advanceEpoch_of_lt hlt conservativeRecovery
      unfold findPlan
      rw [hstate]
      dsimp only
      split_ifs
      · rw [lookup_mapRetained, Option.map_map]
        rfl
      · rfl
    · rw [perform_advanceEpoch_of_le hle]
  | retain plan => exact absurd rfl (h plan)

theorem retain_of_isValid (h : plan.id.isValid = true) :
    state.retain plan = (true, state.retainValid plan) := if_pos h

theorem retain_of_not_isValid (h : ¬ plan.id.isValid = true) : state.retain plan = (false, state) :=
  if_neg h

/-- A plan that is retained is found. -/
theorem findPlan_retainValid_self : (state.retainValid plan).findPlan plan.id = some plan := by
  unfold findPlan retainValid
  split_ifs
  · dsimp only
    rw [AList.lookup_insert]
    rfl
  · dsimp only
    rw [AList.lookup_insert]
    rfl

/-- Retaining a plan evicts other plans at most. -/
theorem findPlan_retainValid_of_ne (hvalid : plan.id.isValid = true) (hne : id ≠ plan.id) :
    (state.retainValid plan).findPlan id = none ∨
      (state.retainValid plan).findPlan id = state.findPlan id := by
  obtain ⟨stats, retained, index, order, hstate, hlookup⟩ := state.retain_spec plan
  rw [retain_of_isValid hvalid] at hstate
  have hretained : (state.retainValid plan).retained = retained :=
    congrArg RuntimeState.retained hstate
  unfold findPlan
  rw [hretained]
  rcases hlookup id fun _ => hne with hnone | hsame
  · rw [hnone]
    exact Or.inl rfl
  · rw [hsame]
    exact Or.inr rfl

end RuntimeState

/-! ## The history -/

/-- The place of a thread that is about to retain a plan, or to list one. -/
def SessionActivity.storing? : SessionActivity → Option SessionActivity
  | .retaining plan => some (.retaining plan)
  | .recording plan => some (.recording plan)
  | _ => none

/-- The part of a coordinator that its history depends on: `storing` are the threads that are about
to retain or to list a plan. -/
structure History where
  limits : ResourceLimits
  runtime : RuntimeState
  retainedIds : List PathPlanId
  storing : ℕ → Option SessionActivity

namespace History

/-- The history with a thread at another place. -/
def put (h : History) (index : ℕ) (place : Option SessionActivity) : History :=
  { h with storing := Function.update h.storing index place }

theorem put_of_eq {h : History} {index : ℕ} {place : Option SessionActivity}
    (hplace : h.storing index = place) : h.put index place = h := by
  unfold put
  rw [← hplace, Function.update_eq_self]

/-- **What a section does** to the history. -/
inductive Step (sha : List UInt8 → Sha256Digest) (codec : PayloadCodec) (h : History) :
    CoordinatorAction → History → Prop
  | stay (action : CoordinatorAction) : Step sha codec h action h
  | perform (action : CoordinatorAction) {op : RuntimeOperation} (hop : op.IsPassive) :
      Step sha codec h action { h with runtime := h.runtime.perform op }
  | retainDirectly (plan : PathPlan) :
      Step sha codec h (.runtime (.retain plan)) { h with runtime := (h.runtime.retain plan).2 }
  | accept {index : ℕ} (hs : h.storing index = none) {requestPayload payload : List UInt8}
      {request : PlanningRequest} {result : PlanningResult}
      (hrequest : codec.decodeRequest h.limits requestPayload = .ok request)
      (hresult : codec.decodeResult h.limits payload = .ok result) :
      Step sha codec h (.proceed index)
        (h.put index (some (.retaining
          (makePathPlan sha request result h.runtime.publishSequence))))
  | retain {index : ℕ} {plan : PathPlan} (hs : h.storing index = some (.retaining plan)) :
      Step sha codec h (.proceed index)
        ({ h with runtime := (h.runtime.retain plan).2 }.put index
          (if (h.runtime.retain plan).1 then some (.recording plan.id) else none))
  | record {index : ℕ} {plan : PathPlanId} (hs : h.storing index = some (.recording plan)) :
      Step sha codec h (.proceed index)
        ({ h with retainedIds := h.retainedIds ++ [plan] }.put index none)

end History

namespace Coordinator

variable {sha : List UInt8 → Sha256Digest} {codec : PayloadCodec} {c c' : Coordinator}
  {action : CoordinatorAction} {index : ℕ} {session : Session}

/-- The history of a coordinator. -/
def history (c : Coordinator) : History where
  limits := c.limits
  runtime := c.runtime
  retainedIds := c.retainedIds
  storing index := c.sessions[index]?.bind (·.activity.storing?)

@[simp] theorem history_send (frames : List SentFrame) : (c.send frames).history = c.history := rfl

theorem storing_history (hs : c.sessions[index]? = some session) :
    c.history.storing index = session.activity.storing? := by
  change c.sessions[index]?.bind (·.activity.storing?) = _
  rw [hs, Option.bind_some]

theorem history_goto (hs : c.sessions[index]? = some session) (activity : SessionActivity) :
    (c.goto index activity).history = c.history.put index activity.storing? := by
  have hstoring : (c.goto index activity).history.storing =
      Function.update c.history.storing index activity.storing? := by
    funext i
    rw [Function.update_apply]
    exact bind_getElem?_modify hs _ _ i
  unfold History.put
  rw [← hstoring]
  rfl

/-- A thread that is not storing goes to a place where it is not storing. -/
theorem history_goto_of_none (hs : c.sessions[index]? = some session)
    (hnone : session.activity.storing? = none) {activity : SessionActivity}
    (hnone' : activity.storing? = none) : (c.goto index activity).history = c.history := by
  rw [history_goto hs, hnone']
  exact History.put_of_eq ((storing_history hs).trans hnone)

/-- No thread begins or ends to store. -/
theorem history_of_sessions (hlimits : c'.limits = c.limits) (hruntime : c'.runtime = c.runtime)
    (hids : c'.retainedIds = c.retainedIds)
    (hstoring : ∀ i : ℕ, (c'.sessions[i]?.bind fun s => s.activity.storing?) =
      c.sessions[i]?.bind fun s => s.activity.storing?) : c'.history = c.history := by
  unfold history
  simp only [hlimits, hruntime, hids, hstoring]

/-! ## Sections -/

theorem history_receive (hs : c.sessions[index]? = some session)
    (hnone : session.activity.storing? = none) (frame : WireFrame) (answers : Option ℕ) :
    (c.receive codec index session frame answers).history = c.history := by
  have hrefusal : (afterRefusal session).storing? = none := by
    unfold afterRefusal
    split_ifs
    · rfl
    · rfl
  have hgoto {activity : SessionActivity} (hnone' : activity.storing? = none)
      (frames : List SentFrame) : ((c.goto index activity).send frames).history = c.history :=
    history_goto_of_none hs hnone hnone'
  have hhello : (c.receiveHello codec index session frame).history = c.history := by
    unfold receiveHello
    split
    · exact hgoto hrefusal _
    · split_ifs
      · exact hgoto hrefusal _
      · exact history_goto_of_none hs hnone rfl
  have hunsupported : (c.receiveUnsupported index session frame).history = c.history := by
    unfold receiveUnsupported
    split_ifs
    · rfl
    · exact hgoto rfl _
  unfold receive
  split
  · exact hhello
  · exact hhello
  · split_ifs
    · exact history_goto_of_none hs hnone rfl
    · exact hunsupported
  · exact history_goto_of_none hs hnone rfl
  · unfold receiveQuery
    split
    · exact hgoto rfl _
    · exact history_goto_of_none hs hnone rfl
  · split_ifs
    · rfl
    · unfold receiveRequest
      split
      · exact hgoto rfl _
      · split_ifs
        · exact hgoto rfl _
        · exact history_goto_of_none hs hnone rfl
  · exact hunsupported

theorem history_dispatch (hs : c.sessions[index]? = some session)
    (hnone : session.activity.storing? = none) {epoch : CoordinatorEpoch}
    {request : PlanningRequestId} {payload : List UInt8} :
    (c.dispatch index epoch request payload).history = c.history := by
  unfold dispatch
  split
  · exact history_goto_of_none hs hnone rfl
  · next worker hworker =>
    -- the session of the worker takes the request, and its thread stays where it is
    have hsame (i : ℕ) := @bind_getElem?_modify_same worker _ c.sessions
      (fun s => { s with outstandingRequest := some request }) (·.activity.storing?) (fun _ => rfl) i
    obtain ⟨taken, htaken⟩ : ∃ taken, (c.sessions.modify worker fun s =>
        { s with outstandingRequest := some request })[index]? = some taken := by
      rw [List.getElem?_modify, hs]
      exact ⟨_, rfl⟩
    have htakenNone := hsame index
    rw [htaken, hs, Option.bind_some, Option.bind_some, hnone] at htakenNone
    exact (history_goto_of_none htaken htakenNone rfl).trans
      (history_of_sessions rfl rfl rfl hsame)

theorem history_collect (hs : c.sessions[index]? = some session)
    (hnone : session.activity.storing? = none) {d : Dispatch} :
    (c.collect index d).history = c.history := by
  have hcleared : { c with
      pending := c.pending.erase d.request
      sessions := c.sessions.map (Session.clearOutstanding d.request) }.history = c.history :=
    history_of_sessions rfl rfl rfl fun i =>
      bind_getElem?_map_clearOutstanding d.request (·.storing?) i
  have hs' : (c.sessions.map (Session.clearOutstanding d.request))[index]? =
      some (session.clearOutstanding d.request) := by
    rw [List.getElem?_map, hs, Option.map_some]
  have hnone' : (session.clearOutstanding d.request).activity.storing? = none := by
    unfold Session.clearOutstanding
    split_ifs
    · exact hnone
    · exact hnone
  unfold collect
  rw [history_send]
  exact (history_goto_of_none hs' hnone' rfl).trans hcleared

/-- The section of a thread that is not storing leaves the history alone, or begins to retain the
plan of an accepted publication. -/
theorem history_proceed (hs : c.sessions[index]? = some session)
    (h : c.proceed sha codec index session = some c') :
    c.history.Step sha codec (.proceed index) c'.history := by
  have hquiet {a : SessionActivity} (ha : a.storing? = none) (heq : session.activity = a) :
      session.activity.storing? = none := by rw [heq, ha]
  have hstay (heq : c'.history = c.history) :
      c.history.Step sha codec (.proceed index) c'.history := by
    rw [heq]
    exact .stay _
  unfold proceed at h
  split at h
  all_goals rename_i heq
  -- the handshake
  · dsimp only at h
    split_ifs at h <;> obtain rfl := Option.some.inj h
    · exact hstay (history_goto_of_none hs (hquiet rfl heq) rfl)
    · refine hstay (history_goto_of_none hs (hquiet rfl heq) ?_)
      unfold afterRefusal
      split_ifs
      · rfl
      · rfl
  · obtain rfl := Option.some.inj h
    refine hstay (history_of_sessions rfl rfl rfl fun i => ?_)
    refine (bind_getElem?_modify hs _ (·.activity.storing?) i).trans ?_
    split_ifs with hi
    · rw [hi, hs, Option.bind_some, hquiet rfl heq]
      rfl
    · rfl
  -- the publication
  · obtain rfl := Option.some.inj h
    exact hstay (history_goto_of_none hs (hquiet rfl heq) rfl)
  · next publication status detail =>
    obtain rfl := Option.some.inj h
    refine hstay (history_goto_of_none hs (hquiet rfl heq) ?_)
    unfold afterCompletion
    split_ifs
    · split
      · rfl
      · rfl
    · rfl
  · next requestPayload payload =>
    have hnone := hquiet (a := .accepted requestPayload payload) rfl heq
    cases hplan : c.acceptedPlan sha codec requestPayload payload with
    | none =>
      rw [hplan] at h
      obtain rfl := Option.some.inj h
      exact hstay (history_goto_of_none hs hnone rfl)
    | some plan =>
      rw [hplan] at h
      obtain rfl := Option.some.inj h
      unfold acceptedPlan at hplan
      split at hplan
      · next request result hrequest hresult =>
        obtain rfl := Option.some.inj hplan
        rw [history_goto hs]
        exact .accept ((storing_history hs).trans hnone) hrequest hresult
      · cases hplan
  · next plan =>
    change some ({ c with runtime := (c.runtime.retain plan).2 }.goto index
      (if (c.runtime.retain plan).1 then .recording plan.id else .reading)) = some c' at h
    obtain rfl := Option.some.inj h
    have hstoring : c.history.storing index = some (.retaining plan) := by
      rw [storing_history hs, heq]
      rfl
    have hgoto := history_goto (c := { c with runtime := (c.runtime.retain plan).2 }) hs
      (if (c.runtime.retain plan).1 then .recording plan.id else .reading)
    rw [hgoto, apply_ite SessionActivity.storing?]
    exact .retain hstoring
  · next plan =>
    obtain rfl := Option.some.inj h
    have hstoring : c.history.storing index = some (.recording plan) := by
      rw [storing_history hs, heq]
      rfl
    have hgoto := history_goto (c := { c with retainedIds := c.retainedIds ++ [plan] }) hs .reading
    rw [hgoto]
    exact .record hstoring
  · obtain rfl := Option.some.inj h
    exact hstay (history_goto_of_none hs (hquiet rfl heq) rfl)
  -- the client
  · obtain rfl := Option.some.inj h
    exact hstay (history_goto_of_none hs (hquiet rfl heq) rfl)
  · obtain rfl := Option.some.inj h
    exact hstay (history_goto_of_none hs (hquiet rfl heq) rfl)
  · obtain rfl := Option.some.inj h
    exact hstay (history_dispatch hs (hquiet rfl heq))
  · obtain ⟨worker, -, rfl⟩ := Option.map_eq_some_iff.mp h
    exact hstay (history_goto_of_none hs (hquiet rfl heq) rfl)
  · obtain rfl := Option.some.inj h
    exact hstay (history_goto_of_none hs (hquiet rfl heq) rfl)
  · obtain rfl := Option.some.inj h
    exact hstay (history_collect hs (hquiet rfl heq))
  all_goals cases h

/-- **Every section** takes a step of the history. -/
theorem history_step (h : c.step sha codec action = some c') :
    c.history.Step sha codec action c'.history := by
  have hstay {c' : Coordinator} (heq : c'.history = c.history) :
      c.history.Step sha codec action c'.history := by
    rw [heq]
    exact .stay _
  have hgoto {index : ℕ} {session : Session} (hs : c.sessions[index]? = some session)
      (hnone : session.activity.storing? = none) {activity : SessionActivity}
      (hnone' : activity.storing? = none) : (c.goto index activity).history = c.history :=
    history_goto_of_none hs hnone hnone'
  cases action with
  | connect =>
    obtain rfl := Option.some.inj h
    refine hstay ?_
    unfold connect
    split_ifs
    · rfl
    · exact history_of_sessions rfl rfl rfl fun i => bind_getElem?_append rfl i
  | receive index frame answers =>
    unfold step at h
    dsimp only at h
    split at h
    · next session hs =>
      split at h
      · next hreading =>
        obtain rfl := Option.some.inj h
        exact hstay (history_receive hs (by rw [hreading]; rfl) frame answers)
      · cases h
    · cases h
  | proceed index =>
    obtain ⟨session, hs, h⟩ := Option.bind_eq_some_iff.mp h
    exact history_proceed hs h
  | sendFails index =>
    unfold step at h
    dsimp only at h
    split at h
    · next session hs =>
      split at h
      · next d hactivity =>
        obtain rfl := Option.some.inj h
        exact hstay (hgoto hs (by rw [hactivity]; rfl) rfl)
      · cases h
    · cases h
  | finish index =>
    unfold step at h
    dsimp only at h
    split at h
    · next session hs =>
      have hfinish (hnone : session.activity.storing? = none) :
          (c.finish index).history = c.history := by
        refine history_of_sessions rfl rfl rfl fun i => ?_
        refine (bind_getElem?_modify hs _ (·.activity.storing?) i).trans ?_
        split_ifs with hi
        · rw [hi, hs, Option.bind_some, hnone]
          rfl
        · rfl
      split at h
      · next hactivity =>
        obtain rfl := Option.some.inj h
        exact hstay (hfinish (by rw [hactivity]; rfl))
      · next hactivity =>
        obtain rfl := Option.some.inj h
        exact hstay (hfinish (by rw [hactivity]; rfl))
      · cases h
    · cases h
  | release index =>
    unfold step at h
    dsimp only at h
    split at h
    · next session hs =>
      split at h
      · next hactivity =>
        obtain rfl := Option.some.inj h
        refine hstay (history_of_sessions rfl rfl rfl fun i => ?_)
        refine (bind_getElem?_modify hs _ (·.activity.storing?) i).trans ?_
        split_ifs with hi
        · rw [hi, hs, Option.bind_some, hactivity]
          rfl
        · rfl
      · cases h
    · cases h
  | fenceWorker boot =>
    obtain rfl := Option.some.inj h
    refine hstay ?_
    unfold fenceWorker
    split
    · rfl
    · dsimp only
      split
      · rfl
      · rfl
  | advanceEpoch epoch =>
    unfold step advanceEpoch at h
    dsimp only at h
    by_cases hle : epoch ≤ c.epoch
    · rw [if_pos hle] at h
      obtain rfl := Option.some.inj h
      exact hstay rfl
    · rw [if_neg hle] at h
      obtain rfl := Option.some.inj h
      exact hstay rfl
  | publishSnapshot snapshot epoch =>
    obtain rfl := Option.some.inj h
    exact hstay rfl
  | finishCall index =>
    obtain ⟨call, -, rfl⟩ := Option.map_eq_some_iff.mp h
    cases call with
    | advanceRuntime epoch notices =>
      have hop : (RuntimeOperation.advanceEpoch epoch true).IsPassive := fun _ => nofun
      exact .perform _ hop
    | publishRuntime snapshot =>
      have hop : (RuntimeOperation.publishSnapshot snapshot).IsPassive := fun _ => nofun
      exact .perform _ hop
    | notifyFence session boot => exact hstay rfl
  | runtime op =>
    obtain rfl := Option.some.inj h
    cases op with
    | retain plan => exact .retainDirectly plan
    | publishSnapshot snapshot =>
      have hop : (RuntimeOperation.publishSnapshot snapshot).IsPassive := fun _ => nofun
      exact .perform _ hop
    | applyInvalidation notice =>
      have hop : (RuntimeOperation.applyInvalidation notice).IsPassive := fun _ => nofun
      exact .perform _ hop
    | advanceEpoch epoch conservativeRecovery =>
      have hop : (RuntimeOperation.advanceEpoch epoch conservativeRecovery).IsPassive := fun _ => nofun
      exact .perform _ hop

end Coordinator

end PathPlanner
