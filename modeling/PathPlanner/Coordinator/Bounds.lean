import PathPlanner.Coordinator.Dispatch

/-!
# The bounds of a coordinator

Connections are counted against `max_sessions`. Registrations and dispatches are counted against
nothing: a worker too many is registered, and a request too many is dispatched. Since a slot is
erased by the client session that waits for it, the slots are bounded by the sessions.

## Main definitions

* `Coordinator.liveSessions`, `Coordinator.WithinBounds`: what is bounded, and by what
* `Coordinator.FitsWorkers`, `Coordinator.FitsPending`: there is room for what the section adds
* `Coordinator.KeepsBounds`: the condition on the sections of a run

## Main results

* `Coordinator.SessionsCounted.step`: the session count is that of the live sessions
* `Coordinator.PendingOwned.length_le`: there are no more slots than live sessions
* `Coordinator.bounds_kept`: **the bounds are kept** by any run of sections that find room
-/

namespace PathPlanner

open Run

/-! ## Counting in lists -/

section Count

variable {α : Type*} {l : List α} {p : α → Bool} {f : α → α} {i : ℕ} {a : α}

/-- Modifying an element without changing whether it counts. -/
theorem countP_modify (h : ∀ a, l[i]? = some a → p (f a) = p a) :
    (l.modify i f).countP p = l.countP p := by
  induction l generalizing i with
  | nil => simp
  | cons b l ih =>
    cases i with
    | zero => rw [List.modify_zero_cons, List.countP_cons, List.countP_cons, h b rfl]
    | succ i => rw [List.modify_succ_cons, List.countP_cons, List.countP_cons, ih h]

/-- Modifying an element that counts into one that does not. -/
theorem countP_modify_add_one (ha : l[i]? = some a) (hp : p a = true) (hf : p (f a) = false) :
    (l.modify i f).countP p + 1 = l.countP p := by
  induction l generalizing i with
  | nil => cases ha
  | cons b l ih =>
    cases i with
    | zero =>
      obtain rfl := Option.some.inj ha
      simp [List.modify_zero_cons, hp, hf]
    | succ i =>
      rw [List.modify_succ_cons, List.countP_cons, List.countP_cons, ← ih ha]
      omega

/-- A modification seen through a projection. -/
theorem map_modify {β : Type*} (part : α → β) (g : β → β) (h : ∀ a, part (f a) = g (part a)) :
    (l.modify i f).map part = (l.map part).modify i g := by
  induction l generalizing i with
  | nil => simp
  | cons b l ih =>
    cases i with
    | zero => simp [List.modify_zero_cons, h]
    | succ i => simp [List.modify_succ_cons, ih]

variable {κ : Type*} [DecidableEq κ] {β : κ → Type*} {s : AList β} {k : κ} {b : β k}

/-- An insertion adds an entry unless the key has one. -/
theorem length_keys_insert :
    (s.insert k b).keys.length = if k ∈ s then s.keys.length else s.keys.length + 1 := by
  rw [AList.keys_insert, List.length_cons]
  split_ifs with hk
  · have hmem := AList.mem_keys.mp hk
    rw [List.length_erase_of_mem hmem]
    have := List.length_pos_of_mem hmem
    omega
  · rw [List.erase_of_not_mem fun h => hk (AList.mem_keys.mpr h)]

theorem length_keys_insert_of_mem (hk : k ∈ s) : (s.insert k b).keys.length = s.keys.length := by
  rw [length_keys_insert, if_pos hk]

theorem length_keys_erase_le : (s.erase k).keys.length ≤ s.keys.length := by
  rw [AList.keys_erase]
  exact List.length_erase_le

end Count

/-- The request whose slot the next section of a thread writes. -/
def SessionActivity.opening? : SessionActivity → Option PlanningRequestId
  | .requesting _ request _ => some request
  | .unwritable d => some d.request
  | _ => none

namespace Coordinator

variable {sha : List UInt8 → Sha256Digest} {codec : PayloadCodec} {c c' : Coordinator}
  {action : CoordinatorAction} {index : ℕ}

/-! ## What is bounded -/

/-- The number of sessions that have not been released. -/
def liveSessions (c : Coordinator) : ℕ := c.sessions.countP fun session => !session.isClosed

/-- The sessions, the registered workers and the requests in flight are within their limits. -/
structure WithinBounds (c : Coordinator) : Prop where
  sessions : c.liveSessions ≤ c.limits.maxSessions.toNat
  workers : c.workers.keys.length ≤ c.limits.maxWorkers.toNat
  pending : c.pending.keys.length ≤ c.limits.maxConcurrentRequests.toNat

/-- A section that registers a worker finds it registered already, or room for one more. -/
def FitsWorkers (c : Coordinator) : CoordinatorAction → Prop
  | .proceed index => ∀ session ∈ c.sessions[index]?, ∀ greeted ∈ session.activity.greeted?,
      greeted.1.boot ∈ c.workers ∨ c.workers.keys.length < c.limits.maxWorkers.toNat
  | _ => True

/-- A section that writes the slot of a request finds the slot there already, or room for one
more. -/
def FitsPending (c : Coordinator) : CoordinatorAction → Prop
  | .proceed index => ∀ session ∈ c.sessions[index]?, ∀ request ∈ session.activity.opening?,
      request ∈ c.pending ∨ c.pending.keys.length < c.limits.maxConcurrentRequests.toNat
  | _ => True

/-- The section finds room for the worker that it registers and, unless the sessions are bounded at
least as tightly, for the request that it dispatches. -/
def KeepsBounds (c : Coordinator) (action : CoordinatorAction) : Prop :=
  c.FitsWorkers action ∧
    (c.limits.maxSessions ≤ c.limits.maxConcurrentRequests ∨ c.FitsPending action)

theorem limits_of_step (h : c.step sha codec action = some c') : c'.limits = c.limits := by
  cases change_of_step h with
  | @dispatch index session hs epoch request payload hactivity =>
    unfold Coordinator.dispatch
    split <;> rfl
  | _ => rfl

/-! ## Where the threads stand -/

/-- Where the threads of the sessions stand. -/
def activities (c : Coordinator) : List SessionActivity := c.sessions.map (·.activity)

theorem activities_getElem? {session : Session} (hs : c.sessions[index]? = some session)
    {activity : SessionActivity} (h : session.activity = activity) :
    c.activities[index]? = some activity := by
  unfold activities
  rw [List.getElem?_map, hs, Option.map_some, h]

theorem activities_goto (activity : SessionActivity) :
    (c.goto index activity).activities = c.activities.modify index fun _ => activity :=
  map_modify _ _ fun _ => rfl

theorem activities_register (hello : HelloPayload) (capture : HandshakeCapture) :
    (c.register index hello capture).activities = c.activities.modify index fun _ => .reading :=
  map_modify _ _ fun _ => rfl

theorem activities_finish : (c.finish index).activities = c.activities.modify index fun _ => .closing :=
  map_modify _ _ fun _ => rfl

theorem activities_release (session : Session) :
    (c.release index session).activities = c.activities.modify index fun _ => .closed :=
  map_modify _ _ fun _ => rfl

/-- A dispatch moves only the thread of the client, to a place with a dispatch of the request. -/
theorem activities_dispatch (c : Coordinator) (index : ℕ) (epoch : CoordinatorEpoch)
    (request : PlanningRequestId) (payload : List UInt8) : ∃ activity : SessionActivity, ∃ d,
      (c.dispatch index epoch request payload).activities =
        c.activities.modify index (fun _ => activity) ∧
      activity.dispatch? = some d ∧ d.request = request ∧ activity ≠ .closed := by
  unfold Coordinator.dispatch
  split
  · let d : Dispatch := ⟨epoch, request, payload, c.dispatches, none, default, 0⟩
    exact ⟨.waiting d, d, activities_goto _, rfl, rfl, nofun⟩
  · next worker _ =>
    let d : Dispatch :=
      ⟨epoch, request, payload, c.dispatches, some worker, c.sendEpoch, c.nextSequence⟩
    refine ⟨.relaying d, d, (activities_goto _).trans ?_, rfl, rfl, nofun⟩
    -- the worker that is chosen stays where it stands
    have hworker : (c.sessions.modify worker fun s =>
        { s with outstandingRequest := some request }).map (·.activity) = c.activities := by
      rw [map_modify Session.activity id ?_, List.modify_id]
      · rfl
      · exact fun _ => rfl
    exact congrArg (List.modify · index _) hworker

theorem activities_collect (d : Dispatch) :
    (c.collect index d).activities = c.activities.modify index fun _ => .reading := by
  refine (activities_goto _).trans (congrArg (List.modify · index _) ?_)
  unfold activities
  rw [List.map_map]
  refine List.map_congr_left fun session _ => ?_
  change (session.clearOutstanding d.request).activity = session.activity
  unfold Session.clearOutstanding
  split_ifs <;> rfl

/-! ## Sessions -/

/-- A place in a session that has not been released. -/
def isLive (activity : SessionActivity) : Bool := !({ activity } : Session).isClosed

theorem isLive_eq_true {activity : SessionActivity} (h : activity ≠ .closed) :
    isLive activity = true := by
  unfold isLive
  rw [Session.isClosed_eq_false h]
  rfl

theorem liveSessions_eq (c : Coordinator) : c.liveSessions = c.activities.countP isLive := by
  unfold liveSessions activities
  rw [List.countP_map]
  rfl

/-- The session count is that of the live sessions, and within the limit. -/
structure SessionsCounted (c : Coordinator) : Prop where
  count_eq : c.sessionCount = c.liveSessions
  count_le : c.sessionCount ≤ c.limits.maxSessions.toNat

theorem SessionsCounted.of_activities (h : c.SessionsCounted) (hlimits : c'.limits = c.limits)
    (hcount : c'.sessionCount = c.sessionCount) (hactivities : c'.activities = c.activities) :
    c'.SessionsCounted := by
  refine ⟨?_, ?_⟩
  · rw [hcount, h.count_eq, liveSessions_eq, liveSessions_eq, hactivities]
  · rw [hcount, hlimits]
    exact h.count_le

/-- A thread goes on in a live session. -/
theorem SessionsCounted.move (h : c.SessionsCounted) {old activity : SessionActivity}
    (hold : c.activities[index]? = some old)
    (hactivities : c'.activities = c.activities.modify index fun _ => activity)
    (hlimits : c'.limits = c.limits) (hcount : c'.sessionCount = c.sessionCount)
    (hlive : old ≠ .closed) (hlive' : activity ≠ .closed) : c'.SessionsCounted := by
  refine ⟨?_, ?_⟩
  · rw [hcount, h.count_eq, liveSessions_eq, liveSessions_eq, hactivities]
    refine (countP_modify fun a ha => ?_).symm
    obtain rfl := Option.some.inj (hold.symm.trans ha)
    rw [isLive_eq_true hlive, isLive_eq_true hlive']
  · rw [hcount, hlimits]
    exact h.count_le

/-- A session that is released is no longer counted. -/
theorem SessionsCounted.release (h : c.SessionsCounted) {session : Session}
    (hold : c.activities[index]? = some .closing) : (c.release index session).SessionsCounted := by
  have hlive : (c.release index session).liveSessions + 1 = c.liveSessions := by
    rw [liveSessions_eq, liveSessions_eq, activities_release]
    exact countP_modify_add_one hold rfl rfl
  have hcount := h.count_eq
  have hle := h.count_le
  refine ⟨?_, ?_⟩
  · change c.sessionCount - 1 = _
    omega
  · change c.sessionCount - 1 ≤ c.limits.maxSessions.toNat
    omega

/-- **Connections are counted**: no section takes the live sessions beyond their limit. -/
theorem SessionsCounted.step (h : c.SessionsCounted) (hstep : c.step sha codec action = some c') :
    c'.SessionsCounted := by
  have hlimits := limits_of_step hstep
  by_cases hconnect : action = .connect
  · subst hconnect
    obtain rfl := Option.some.inj hstep
    unfold connect
    split_ifs with hfull
    · exact h
    · refine ⟨?_, Nat.succ_le_of_lt (not_le.mp hfull)⟩
      unfold liveSessions
      rw [List.countP_append, h.count_eq]
      rfl
  cases change_of_step hstep with
  | stay => exact h
  | connect => exact absurd rfl hconnect
  | quiet hs hquiet activity hquiet' frames =>
    exact h.move (activities_getElem? hs rfl) (activities_goto _) hlimits rfl hquiet.live hquiet'.live
  | publishing hs hactivity =>
    exact h.move (activities_getElem? hs hactivity) (activities_goto _) hlimits rfl nofun nofun
  | validated hs hactivity =>
    exact h.move (activities_getElem? hs hactivity) (activities_goto _) hlimits rfl nofun nofun
  | complete hs hactivity =>
    exact h.move (activities_getElem? hs hactivity) (activities_goto _) hlimits rfl nofun
      (afterCompletion_ne_closed _ _ _)
  | @register index session hs frame hello capture hactivity =>
    exact h.move (activities_getElem? hs hactivity) (activities_register hello capture) hlimits rfl
      nofun nofun
  | retain hs hactivity activity hquiet =>
    exact h.move (activities_getElem? hs hactivity) (activities_goto _) hlimits rfl nofun hquiet.live
  | record hs hactivity =>
    exact h.move (activities_getElem? hs hactivity) (activities_goto _) hlimits rfl nofun nofun
  | @dispatch index session hs epoch request payload hactivity =>
    obtain ⟨activity, d, hactivities, -, -, hlive⟩ :=
      c.activities_dispatch index epoch request payload
    refine h.move (activities_getElem? hs hactivity) hactivities hlimits ?_ nofun hlive
    unfold Coordinator.dispatch
    split <;> rfl
  | relay hs hactivity =>
    exact h.move (activities_getElem? hs hactivity) (activities_goto _) hlimits rfl nofun nofun
  | sendFails hs hactivity =>
    exact h.move (activities_getElem? hs hactivity) (activities_goto _) hlimits rfl nofun nofun
  | markUnwritable hs hactivity =>
    exact h.move (activities_getElem? hs hactivity) (activities_goto _) hlimits rfl nofun nofun
  | collect hs hactivity =>
    exact h.move (activities_getElem? hs hactivity) (activities_collect _) hlimits rfl nofun nofun
  | finish hs hquiet =>
    exact h.move (activities_getElem? hs rfl) activities_finish hlimits rfl hquiet.live nofun
  | release hs hactivity => exact h.release (activities_getElem? hs hactivity)
  | fenceWorker => exact h.of_activities hlimits rfl rfl
  | advanceEpoch => exact h.of_activities hlimits rfl rfl
  | publishSnapshot => exact h.of_activities hlimits rfl rfl
  | advanceRuntime => exact h.of_activities hlimits rfl rfl
  | publishRuntime => exact h.of_activities hlimits rfl rfl
  | notifyFence => exact h.of_activities hlimits rfl rfl
  | runtime => exact h.of_activities hlimits rfl rfl

/-! ## Workers -/

/-- **Registrations fit** when each finds room: no other section adds one. -/
theorem workers_le_of_step (hfits : c.FitsWorkers action)
    (hstep : c.step sha codec action = some c')
    (h : c.workers.keys.length ≤ c.limits.maxWorkers.toNat) :
    c'.workers.keys.length ≤ c'.limits.maxWorkers.toNat := by
  rw [limits_of_step hstep]
  cases change_of_step hstep with
  | @complete index session hs publication status detail hactivity =>
    change (c.countPublication publication.frame.workerBoot status).keys.length ≤ _
    unfold countPublication
    cases hlookup : c.workers.lookup publication.frame.workerBoot with
    | none => exact h
    | some registration =>
      have hmem := AList.lookup_isSome.mp (Option.isSome_of_mem hlookup)
      exact (length_keys_insert_of_mem hmem).trans_le h
  | @register index session hs frame hello capture hactivity =>
    change (c.workers.insert hello.boot (registrationOf hello capture)).keys.length ≤ _
    rw [length_keys_insert]
    have hroom := hfits session hs (hello, capture) (by rw [hactivity]; rfl)
    split_ifs with hmem
    · exact h
    · exact Nat.succ_le_of_lt (hroom.resolve_left hmem)
  | @dispatch index session hs epoch request payload hactivity =>
    rw [(c.dispatch_frame index epoch request payload).1]
    exact h
  | @release index session hs hactivity =>
    change ((releasedBoot session).elim c.workers c.workers.erase).keys.length ≤ _
    cases releasedBoot session with
    | none => exact h
    | some boot => exact length_keys_erase_le.trans h
  | fenceWorker boot hregistered calls =>
    have hmem := AList.lookup_isSome.mp (Option.isSome_of_mem hregistered)
    exact (length_keys_insert_of_mem hmem).trans_le h
  | advanceEpoch => exact Nat.zero_le _
  | _ => exact h

/-! ## Slots -/

/-- The request of the dispatch that a thread has begun and not yet collected. -/
def requestOf (activity : SessionActivity) : Option PlanningRequestId :=
  activity.dispatch?.map (·.request)

/-- Every slot is that of a dispatch that some thread has begun and not yet collected. -/
def PendingOwned (c : Coordinator) : Prop :=
  ∀ request ∈ c.pending, ∃ (i : ℕ) (activity : SessionActivity), c.activities[i]? = some activity ∧
    requestOf activity = some request

/-- A thread moves on, and each slot that is left is its own or was there before and not its own. -/
theorem PendingOwned.move (h : c.PendingOwned) {old activity : SessionActivity}
    (hold : c.activities[index]? = some old)
    (hactivities : c'.activities = c.activities.modify index fun _ => activity)
    (hpending : ∀ request ∈ c'.pending, requestOf activity = some request ∨
      (request ∈ c.pending ∧ requestOf old ≠ some request)) : c'.PendingOwned := by
  intro request hrequest
  rcases hpending request hrequest with hown | ⟨hbefore, hne⟩
  · refine ⟨index, activity, ?_, hown⟩
    rw [hactivities, List.getElem?_modify_eq, hold]
    rfl
  · obtain ⟨i, other, hother, howns⟩ := h request hbefore
    refine ⟨i, other, ?_, howns⟩
    have hi : index ≠ i := by
      rintro rfl
      rw [hold] at hother
      exact hne (Option.some.inj hother ▸ howns)
    rw [hactivities, List.getElem?_modify_ne _ _ hi]
    exact hother

/-- A thread moves on with the request that it has, if any, and no slot is added. -/
theorem PendingOwned.keep (h : c.PendingOwned) {old activity : SessionActivity}
    (hold : c.activities[index]? = some old)
    (hactivities : c'.activities = c.activities.modify index fun _ => activity)
    (hrequest : requestOf activity = requestOf old)
    (hpending : ∀ request ∈ c'.pending, request ∈ c.pending) : c'.PendingOwned := by
  refine h.move hold hactivities fun request hmem => ?_
  by_cases hown : requestOf old = some request
  · exact Or.inl (hrequest.trans hown)
  · exact Or.inr ⟨hpending request hmem, hown⟩

theorem requestOf_of_isQuiet {activity : SessionActivity} (h : activity.IsQuiet) :
    requestOf activity = none := by
  unfold requestOf
  rw [h.dispatch]
  rfl

theorem mem_of_mem_releaseOutstanding {session : Session} {request : PlanningRequestId}
    (h : request ∈ c.releaseOutstanding index session) : request ∈ c.pending := by
  unfold releaseOutstanding at h
  split at h
  · exact h
  · next key hkey =>
    split at h
    · exact h
    · next slot hslot =>
      split_ifs at h
      · exact h
      · rcases (AList.mem_insert _).mp h with rfl | hmem
        · exact AList.lookup_isSome.mp (Option.isSome_of_mem hslot)
        · exact hmem

theorem mem_of_mem_completedPending {publication : Publication} {status : WireStatus}
    {detail : String} {request : PlanningRequestId}
    (h : request ∈ c.completedPending index publication status detail) : request ∈ c.pending := by
  unfold completedPending at h
  split at h
  · next slot hslot =>
    rcases (AList.mem_insert _).mp h with rfl | hmem
    · have hlookup := (Option.filter_eq_some_iff.mp hslot).1
      exact AList.lookup_isSome.mp (Option.isSome_of_mem hlookup)
    · exact hmem
  · exact h

/-- The slots after a dispatch. -/
theorem mem_dispatch_pending {epoch : CoordinatorEpoch} {request key : PlanningRequestId}
    {payload : List UInt8} : key ∈ (c.dispatch index epoch request payload).pending ↔
      key = request ∨ key ∈ c.pending := by
  unfold Coordinator.dispatch
  split
  · exact AList.mem_insert _
  · exact AList.mem_insert _

theorem PendingOwned.step (h : c.PendingOwned) (hstep : c.step sha codec action = some c') :
    c'.PendingOwned := by
  cases change_of_step hstep with
  | stay => exact h
  | connect =>
    intro request hrequest
    obtain ⟨i, activity, hactivity, howns⟩ := h request hrequest
    refine ⟨i, activity, ?_, howns⟩
    have hlt := (List.getElem?_eq_some_iff.mp hactivity).1
    refine Eq.trans ?_ hactivity
    change (List.map _ (c.sessions ++ _))[i]? = _
    rw [List.map_append]
    exact List.getElem?_append_left hlt
  | quiet hs hquiet activity hquiet' frames =>
    exact h.keep (activities_getElem? hs rfl) (activities_goto _)
      ((requestOf_of_isQuiet hquiet').trans (requestOf_of_isQuiet hquiet).symm) fun _ => id
  | publishing hs hactivity =>
    exact h.keep (activities_getElem? hs hactivity) (activities_goto _) rfl fun _ => id
  | validated hs hactivity =>
    exact h.keep (activities_getElem? hs hactivity) (activities_goto _) rfl fun _ => id
  | complete hs hactivity =>
    refine h.keep (activities_getElem? hs hactivity) (activities_goto _) ?_ fun _ =>
      mem_of_mem_completedPending
    unfold afterCompletion
    split_ifs
    · split <;> rfl
    · rfl
  | @register index session hs frame hello capture hactivity =>
    exact h.keep (activities_getElem? hs hactivity) (activities_register hello capture) rfl
      fun _ => id
  | retain hs hactivity activity hquiet =>
    exact h.keep (activities_getElem? hs hactivity) (activities_goto _)
      (requestOf_of_isQuiet hquiet) fun _ => id
  | record hs hactivity =>
    exact h.keep (activities_getElem? hs hactivity) (activities_goto _) rfl fun _ => id
  | @dispatch index session hs epoch request payload hactivity =>
    obtain ⟨activity, d, hactivities, hd, hrequest, -⟩ :=
      c.activities_dispatch index epoch request payload
    refine h.move (activities_getElem? hs hactivity) hactivities fun key hkey => ?_
    rcases mem_dispatch_pending.mp hkey with rfl | hmem
    · refine Or.inl ?_
      unfold requestOf
      rw [hd, Option.map_some, hrequest]
    · exact Or.inr ⟨hmem, nofun⟩
  | relay hs hactivity =>
    exact h.keep (activities_getElem? hs hactivity) (activities_goto _) rfl fun _ => id
  | sendFails hs hactivity =>
    exact h.keep (activities_getElem? hs hactivity) (activities_goto _) rfl fun _ => id
  | @markUnwritable index session hs d hactivity =>
    refine h.move (activities_getElem? hs hactivity) (activities_goto _) fun key hkey => ?_
    by_cases hown : key = d.request
    · exact Or.inl (congrArg some hown.symm)
    · refine Or.inr ⟨((AList.mem_insert _).mp hkey).resolve_left hown, fun he => hown ?_⟩
      exact (Option.some.inj he).symm
  | @collect index session hs d hactivity =>
    refine h.move (activities_getElem? hs hactivity) (activities_collect d) fun key hkey => ?_
    -- the slot of the dispatch is erased
    obtain ⟨hne, hmem⟩ := AList.mem_erase.mp hkey
    exact Or.inr ⟨hmem, fun he => hne (Option.some.inj he).symm⟩
  | finish hs hquiet =>
    exact h.keep (activities_getElem? hs rfl) activities_finish (requestOf_of_isQuiet hquiet).symm
      fun _ => id
  | @release index session hs hactivity =>
    exact h.keep (activities_getElem? hs hactivity) (activities_release session) rfl fun _ =>
      mem_of_mem_releaseOutstanding
  | fenceWorker => exact h
  | advanceEpoch => exact h
  | publishSnapshot => exact h
  | advanceRuntime => exact h
  | publishRuntime => exact h
  | notifyFence => exact h
  | runtime => exact h

/-- **There are no more slots than live sessions.** -/
theorem PendingOwned.length_le (h : c.PendingOwned) :
    c.pending.keys.length ≤ c.liveSessions := by
  have hsubset : c.pending.keys ⊆ c.activities.filterMap requestOf := by
    intro request hrequest
    obtain ⟨i, activity, hactivity, howns⟩ := h request (AList.mem_keys.mpr hrequest)
    exact List.mem_filterMap.mpr ⟨activity, List.mem_of_getElem? hactivity, howns⟩
  calc c.pending.keys.length
      ≤ (c.activities.filterMap requestOf).length :=
        (c.pending.keys_nodup.subperm hsubset).length_le
    _ = c.activities.countP fun activity => (requestOf activity).isSome :=
        List.length_filterMap_eq_countP
    _ ≤ c.activities.countP isLive := by
        refine List.countP_mono_left fun activity _ hsome => isLive_eq_true ?_
        rintro rfl
        cases hsome
    _ = c.liveSessions := c.liveSessions_eq.symm

/-- **Dispatches fit** when each finds room: no other section adds a slot. -/
theorem pending_le_of_step (hfits : c.FitsPending action)
    (hstep : c.step sha codec action = some c')
    (h : c.pending.keys.length ≤ c.limits.maxConcurrentRequests.toNat) :
    c'.pending.keys.length ≤ c'.limits.maxConcurrentRequests.toNat := by
  rw [limits_of_step hstep]
  have hsame (hmem : ∀ request ∈ c'.pending, request ∈ c.pending) :
      c'.pending.keys.length ≤ c.pending.keys.length :=
    (c'.pending.keys_nodup.subperm fun request hrequest =>
      AList.mem_keys.mp (hmem request (AList.mem_keys.mpr hrequest))).length_le
  have hinsert {request : PlanningRequestId} {slot : Pending}
      (hroom : request ∈ c.pending ∨ c.pending.keys.length < c.limits.maxConcurrentRequests.toNat) :
      (c.pending.insert request slot).keys.length ≤ c.limits.maxConcurrentRequests.toNat := by
    rw [length_keys_insert]
    split_ifs with hmem
    · exact h
    · exact Nat.succ_le_of_lt (hroom.resolve_left hmem)
  cases change_of_step hstep with
  | complete => exact (hsame fun _ => mem_of_mem_completedPending).trans h
  | @dispatch index session hs epoch request payload hactivity =>
    have hroom := hfits session hs request (by rw [hactivity]; rfl)
    unfold Coordinator.dispatch
    split
    · exact hinsert hroom
    · exact hinsert hroom
  | @markUnwritable index session hs d hactivity =>
    exact hinsert (hfits session hs d.request (by rw [hactivity]; rfl))
  | collect => exact length_keys_erase_le.trans h
  | release => exact (hsame fun _ => mem_of_mem_releaseOutstanding).trans h
  | _ => exact h

/-! ## Runs -/

theorem recoverStore_frame (c : Coordinator) (sha : List UInt8 → Sha256Digest)
    (records : List StoredPlanRecord) : (c.recoverStore sha records).limits = c.limits ∧
      (c.recoverStore sha records).sessions = c.sessions ∧
      (c.recoverStore sha records).sessionCount = c.sessionCount ∧
      (c.recoverStore sha records).workers = c.workers ∧
      (c.recoverStore sha records).pending = c.pending := by
  unfold recoverStore
  induction records generalizing c with
  | nil => exact ⟨rfl, rfl, rfl, rfl, rfl⟩
  | cons record records ih =>
    rw [List.foldl_cons]
    refine (ih _).imp (·.trans ?_) fun h => h.imp (·.trans ?_) fun h => h.imp (·.trans ?_)
      fun h => h.imp (·.trans ?_) (·.trans ?_)
    all_goals
      dsimp only
      split_ifs <;> rfl

/-- A coordinator that has recovered its store has accepted no session. -/
theorem isStarted_recoverStore (limits : ResourceLimits) (snapshot : Option FabricSnapshot)
    (initialEpoch : FabricEpoch) (records : List StoredPlanRecord) :
    ((new limits snapshot initialEpoch).recoverStore sha records).IsStarted := by
  obtain ⟨-, hsessions, -, hworkers, hpending⟩ :=
    recoverStore_frame (new limits snapshot initialEpoch) sha records
  exact ⟨hsessions, hworkers, hpending⟩

/-- **The bounds are kept**: from a coordinator that has recovered its store, whatever the order of
connections, handshakes, dispatches, publications, losses and administrative calls, the live
sessions, the registered workers and the requests in flight stay within their limits when each
section finds room for what it adds. -/
theorem bounds_kept (limits : ResourceLimits) (snapshot : Option FabricSnapshot)
    (initialEpoch : FabricEpoch) (records : List StoredPlanRecord)
    {actions : List CoordinatorAction} {reached : Coordinator}
    (hkeeps : StepsMeet (step sha codec) KeepsBounds
      ((new limits snapshot initialEpoch).recoverStore sha records) actions)
    (hrun : run (step sha codec) ((new limits snapshot initialEpoch).recoverStore sha records)
      actions = some reached) :
    reached.limits = limits ∧ reached.WithinBounds := by
  obtain ⟨hlimits, hsessions, hcount, hworkers, hpending⟩ :=
    recoverStore_frame (new limits snapshot initialEpoch) sha records
  generalize (new limits snapshot initialEpoch).recoverStore sha records = start at *
  have hlimitsKept : reached.limits = limits :=
    (invariant_of_run (I := fun t => t.limits = start.limits)
      (fun _ _ _ hs h => (limits_of_step hs).trans h) hrun rfl).trans hlimits
  have hcounted : reached.SessionsCounted := by
    refine invariant_of_run (fun _ _ _ hs h => h.step hs) hrun ⟨?_, ?_⟩
    · rw [hcount]
      unfold liveSessions
      rw [hsessions]
      rfl
    · rw [hcount]
      exact Nat.zero_le _
  have howned : reached.PendingOwned := by
    refine invariant_of_run (fun _ _ _ hs h => h.step hs) hrun ?_
    intro request hrequest
    rw [hpending] at hrequest
    exact absurd hrequest (AList.notMem_empty request)
  have hlive : reached.liveSessions ≤ reached.limits.maxSessions.toNat :=
    hcounted.count_eq ▸ hcounted.count_le
  refine ⟨hlimitsKept, hlive, ?_, ?_⟩
  · refine StepsMeet.invariant (P := KeepsBounds)
      (I := fun t => t.workers.keys.length ≤ t.limits.maxWorkers.toNat)
      (fun _ _ _ hk hs h => workers_le_of_step hk.1 hs h) hkeeps hrun ?_
    rw [hworkers]
    exact Nat.zero_le _
  · by_cases htight : limits.maxSessions ≤ limits.maxConcurrentRequests
    · -- a slot belongs to a live session
      rw [hlimitsKept] at hlive ⊢
      exact howned.length_le.trans (hlive.trans (UInt32.le_iff_toNat_le.mp htight))
    · have hstep (s : Coordinator) (a : CoordinatorAction) (s' : Coordinator)
          (hk : s.KeepsBounds a) (hs : s.step sha codec a = some s')
          (h : s.limits = limits ∧
            s.pending.keys.length ≤ s.limits.maxConcurrentRequests.toNat) :
          s'.limits = limits ∧ s'.pending.keys.length ≤ s'.limits.maxConcurrentRequests.toNat := by
        refine ⟨(limits_of_step hs).trans h.1, pending_le_of_step ?_ hs h.2⟩
        exact hk.2.resolve_left fun hle => htight (h.1 ▸ hle)
      refine (StepsMeet.invariant hstep hkeeps hrun ⟨hlimits, ?_⟩).2
      rw [hpending]
      exact Nat.zero_le _

/-! ## A coordinator for one worker and one request -/

instance (c : Coordinator) : (action : CoordinatorAction) → Decidable (c.KeepsBounds action)
  | .proceed index => inferInstanceAs (Decidable ((∀ session ∈ c.sessions[index]?,
      ∀ greeted ∈ session.activity.greeted?, greeted.1.boot ∈ c.workers ∨
        c.workers.keys.length < c.limits.maxWorkers.toNat) ∧
      (c.limits.maxSessions ≤ c.limits.maxConcurrentRequests ∨
        ∀ session ∈ c.sessions[index]?, ∀ request ∈ session.activity.opening?,
          request ∈ c.pending ∨
            c.pending.keys.length < c.limits.maxConcurrentRequests.toNat)))
  | .connect => isTrue ⟨trivial, Or.inr trivial⟩
  | .receive _ _ _ => isTrue ⟨trivial, Or.inr trivial⟩
  | .sendFails _ => isTrue ⟨trivial, Or.inr trivial⟩
  | .finish _ => isTrue ⟨trivial, Or.inr trivial⟩
  | .release _ => isTrue ⟨trivial, Or.inr trivial⟩
  | .fenceWorker _ => isTrue ⟨trivial, Or.inr trivial⟩
  | .advanceEpoch _ => isTrue ⟨trivial, Or.inr trivial⟩
  | .publishSnapshot _ _ => isTrue ⟨trivial, Or.inr trivial⟩
  | .finishCall _ => isTrue ⟨trivial, Or.inr trivial⟩
  | .runtime _ => isTrue ⟨trivial, Or.inr trivial⟩

/-- One worker and one request at a time. -/
def narrowLimits : ResourceLimits := { maxWorkers := 1, maxConcurrentRequests := 1 }

/-- A coordinator with these limits. -/
def narrowCoordinator : Coordinator :=
  (new narrowLimits (some singleLink) (.ofNat 1)).recoverStore constantHash []

/-- A worker registers and a client dispatches a request to it. -/
def oneDispatch : List CoordinatorAction :=
  [.connect, .connect] ++ handshake 0 1 ++ (dispatchTo 1 7).take 2

/-- Two workers register and two clients dispatch a request each. -/
def twoDispatches : List CoordinatorAction :=
  [.connect, .connect, .connect, .connect] ++ handshake 0 1 ++ handshake 1 2 ++
    (dispatchTo 2 7).take 2 ++ (dispatchTo 3 8).take 2

/-- The coordinator after the one dispatch. -/
def busyCoordinator : Coordinator :=
  (run (step constantHash byteCodec) narrowCoordinator oneDispatch).get (by decide +kernel)

/-- The coordinator after the two dispatches. -/
def crowdedCoordinator : Coordinator :=
  (run (step constantHash byteCodec) narrowCoordinator twoDispatches).get (by decide +kernel)

theorem bounds_kept_busyCoordinator :
    busyCoordinator.limits = narrowLimits ∧ busyCoordinator.WithinBounds :=
  @bounds_kept constantHash byteCodec narrowLimits (some singleLink) (.ofNat 1) [] oneDispatch _
    (by decide +kernel) (Option.some_get _).symm

/-- Two workers are registered and two requests are in flight. -/
theorem not_bounds_kept_crowdedCoordinator : validateLimits narrowLimits = none ∧
    run (step constantHash byteCodec) narrowCoordinator twoDispatches = some crowdedCoordinator ∧
      crowdedCoordinator.limits = narrowLimits ∧ crowdedCoordinator.workers.keys.length = 2 ∧
        crowdedCoordinator.pending.keys.length = 2 ∧ ¬ crowdedCoordinator.WithinBounds := by
  have hworkers : crowdedCoordinator.workers.keys.length = 2 := by decide +kernel
  have hlimit : crowdedCoordinator.limits.maxWorkers = 1 := by decide +kernel
  have hrun : run (step constantHash byteCodec) narrowCoordinator twoDispatches =
    some crowdedCoordinator := (Option.some_get _).symm
  refine ⟨by decide, hrun, ?_, hworkers, by decide +kernel, fun h => ?_⟩
  · exact invariant_of_run (I := fun t => t.limits = narrowLimits)
      (fun _ _ _ hs h => (limits_of_step hs).trans h) hrun rfl
  · have hle := h.workers
    rw [hworkers, hlimit] at hle
    exact absurd hle (by decide)

end Coordinator

end PathPlanner
