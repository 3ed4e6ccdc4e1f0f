import PathPlanner.Coordinator.Notices
import PathPlanner.Coordinator.Readable

/-!
# Replies of workers

A worker answers a relayed request with a result or with an error. The session of a worker handles a
result as a publication, which completes the slot of the dispatch; it ignores an error, so the client
waits for the receive bound.

## Main definitions

* `Coordinator.Resolved`: the slot of a dispatch holds the outcome of a reply
* `Coordinator.ReplyResolves`: it does in every run in which the reply has been handled
* `Worker.Serves`: the worker answers with a result
* `Coordinator.Resolving`: where the reply stands while the client waits

## Main results

* `Coordinator.threads_of_step`: how the threads move
* `Coordinator.lookup_of_step`: what happens to the slot of a dispatch
* `Coordinator.Resolving.step`: the step lemma
* `Coordinator.replyResolves_iff`: **a reply resolves its dispatch exactly when the worker serves the
  request**
-/

namespace PathPlanner

open Run

/-- The thread waits for the next frame of its session. -/
def SessionActivity.isReading : SessionActivity → Bool
  | .reading => true
  | _ => false

theorem SessionActivity.isReading_iff {activity : SessionActivity} :
    activity.isReading = true ↔ activity = .reading := by
  cases activity with
  | reading => exact iff_of_true rfl rfl
  | _ => exact iff_of_false nofun nofun

namespace Coordinator

variable {sha : List UInt8 → Sha256Digest} {codec : PayloadCodec} {c c' : Coordinator}
  {action : CoordinatorAction} {index client worker : ℕ} {d : Dispatch} {p : Publication}

/-! ## Threads -/

/-- The session is that of a worker. -/
def IsWorker (c : Coordinator) (index : ℕ) : Prop :=
  ∃ session, c.sessions[index]? = some session ∧ session.workerRole = true

/-- How the thread of a session moves: it hands a publication on until it is completed, and begins no
dispatch but a new one, relayed to a worker. -/
structure Moves (c c' : Coordinator) (action : CoordinatorAction) (index : ℕ)
    (old new : SessionActivity) : Prop where
  publication : ∀ p, old.publication? = some p → new.publication? = some p ∨
    action = .proceed index ∧ ∃ status detail, old = .validated p status detail
  dispatch : ∀ d, new.dispatch? = some d → (old.dispatch? = some d ∧ old.waiting? = none) ∨
    (d.number = c.dispatches ∧ c'.dispatches = c.dispatches + 1 ∧
      ∀ worker, d.worker = some worker → c.IsWorker worker)

/-- The thread leaves a place without a publication for one without a dispatch. -/
theorem Moves.of_none {old new : SessionActivity} (hold : old.publication? = none)
    (hnew : new.dispatch? = none) : Moves c c' action index old new where
  publication p hp := by
    rw [hold] at hp
    cases hp
  dispatch d hd := by
    rw [hnew] at hd
    cases hd

/-- The thread goes on with its dispatch. -/
theorem Moves.of_dispatch {old new : SessionActivity} (hold : old.publication? = none)
    (hwaiting : old.waiting? = none) (hnew : new.dispatch? = old.dispatch?) :
    Moves c c' action index old new where
  publication p hp := by
    rw [hold] at hp
    cases hp
  dispatch d hd := Or.inl ⟨hnew ▸ hd, hwaiting⟩

/-- What a section does to the places of the threads. -/
inductive Threads (c c' : Coordinator) (action : CoordinatorAction) : Prop
  | stay (h : c'.activities = c.activities) (hcount : c'.dispatches = c.dispatches)
  | connect (h : c'.activities = c.activities ++ [.reading]) (hcount : c'.dispatches = c.dispatches)
  | move (index : ℕ) (old new : SessionActivity) (hold : c.activities[index]? = some old)
      (h : c'.activities = c.activities.modify index fun _ => new)
      (hmoves : Moves c c' action index old new) (hcount : c.dispatches ≤ c'.dispatches)

theorem isWorker_of_findIdx? (h : c.sessions.findIdx? c.isAvailable = some worker) :
    c.IsWorker worker := by
  obtain ⟨hlt, havailable, -⟩ := List.findIdx?_eq_some_iff_getElem.mp h
  unfold isAvailable at havailable
  simp only [Bool.and_eq_true] at havailable
  exact ⟨c.sessions[worker], List.getElem?_eq_getElem hlt, havailable.1.1.1⟩

/-- A dispatch that is begun has the next number, and is relayed to a worker if to any session. -/
theorem threads_dispatch {session : Session} (hs : c.sessions[index]? = some session)
    {epoch : CoordinatorEpoch} {request : PlanningRequestId} {payload : List UInt8}
    (hactivity : session.activity = .requesting epoch request payload) :
    Threads c (c.dispatch index epoch request payload) action := by
  have hold := activities_getElem? hs hactivity
  unfold Coordinator.dispatch
  split
  · refine .move index _ _ hold (activities_goto _) ⟨nofun, fun d hd => Or.inr ?_⟩
      (Nat.le_succ _)
    obtain rfl := Option.some.inj hd
    exact ⟨rfl, rfl, nofun⟩
  · next worker hworker =>
    have hchosen : (c.sessions.modify worker fun s =>
        { s with outstandingRequest := some request }).map (·.activity) = c.activities := by
      rw [map_modify Session.activity id ?_, List.modify_id]
      · rfl
      · exact fun _ => rfl
    refine .move index _ _ hold ((activities_goto _).trans (congrArg (List.modify · index _) hchosen))
      ⟨nofun, fun d hd => Or.inr ?_⟩ (Nat.le_succ _)
    obtain rfl := Option.some.inj hd
    refine ⟨rfl, rfl, fun w hw => ?_⟩
    obtain rfl := Option.some.inj hw
    exact isWorker_of_findIdx? hworker

/-- **How the threads move** in a section. -/
theorem threads_of_step (hstep : c.step sha codec action = some c') : Threads c c' action := by
  cases change_of_step hstep with
  | stay => exact .stay rfl rfl
  | connect => exact .connect (List.map_append ..) rfl
  | quiet hs hquiet activity hquiet' frames =>
    exact .move _ _ _ (activities_getElem? hs rfl) (activities_goto _)
      (.of_none hquiet.publication hquiet'.dispatch) le_rfl
  | publishing hs hactivity =>
    exact .move _ _ _ (activities_getElem? hs hactivity) (activities_goto _) (.of_none rfl rfl) le_rfl
  | validated hs hactivity =>
    exact .move _ _ _ (activities_getElem? hs hactivity) (activities_goto _)
      ⟨fun _ => Or.inl, nofun⟩ le_rfl
  | complete hs hactivity =>
    refine .move _ _ _ (activities_getElem? hs hactivity) (activities_goto _)
      ⟨fun p hp => Or.inr ⟨rfl, ?_⟩, fun d hd => ?_⟩ le_rfl
    · obtain rfl := Option.some.inj hp
      exact ⟨_, _, rfl⟩
    · unfold afterCompletion at hd
      split_ifs at hd
      · split at hd <;> cases hd
      · cases hd
  | @register index session hs frame hello capture hactivity =>
    exact .move _ _ _ (activities_getElem? hs hactivity) (activities_register hello capture)
      (.of_none rfl rfl) le_rfl
  | retain hs hactivity activity hquiet =>
    exact .move _ _ _ (activities_getElem? hs hactivity) (activities_goto _)
      (.of_none rfl hquiet.dispatch) le_rfl
  | record hs hactivity =>
    exact .move _ _ _ (activities_getElem? hs hactivity) (activities_goto _) (.of_none rfl rfl) le_rfl
  | dispatch hs hactivity => exact threads_dispatch hs hactivity
  | relay hs hactivity =>
    exact .move _ _ _ (activities_getElem? hs hactivity) (activities_goto _)
      (.of_dispatch rfl rfl rfl) le_rfl
  | sendFails hs hactivity =>
    exact .move _ _ _ (activities_getElem? hs hactivity) (activities_goto _)
      (.of_dispatch rfl rfl rfl) le_rfl
  | markUnwritable hs hactivity =>
    exact .move _ _ _ (activities_getElem? hs hactivity) (activities_goto _)
      (.of_dispatch rfl rfl rfl) le_rfl
  | collect hs hactivity =>
    exact .move _ _ _ (activities_getElem? hs hactivity) (activities_collect _)
      (.of_none rfl rfl) le_rfl
  | finish hs hquiet =>
    exact .move _ _ _ (activities_getElem? hs rfl) activities_finish
      (.of_none hquiet.publication rfl) le_rfl
  | release hs hactivity =>
    exact .move _ _ _ (activities_getElem? hs hactivity) (activities_release _)
      (.of_none rfl rfl) le_rfl
  | fenceWorker => exact .stay rfl rfl
  | advanceEpoch => exact .stay rfl rfl
  | publishSnapshot => exact .stay rfl rfl
  | advanceRuntime => exact .stay rfl rfl
  | publishRuntime => exact .stay rfl rfl
  | notifyFence => exact .stay rfl rfl
  | runtime => exact .stay rfl rfl

/-! ## What the threads hold -/

/-- The publication that the thread of a session handles. -/
def handling (c : Coordinator) (index : ℕ) : Option Publication :=
  c.activities[index]?.bind (·.publication?)

theorem openDispatch_eq (c : Coordinator) (client : ℕ) :
    c.openDispatch client = c.activities[client]?.bind (·.dispatch?) := by
  unfold openDispatch activities
  rw [List.getElem?_map, Option.bind_map]
  rfl

theorem waitingDispatch_eq (c : Coordinator) (client : ℕ) :
    c.waitingDispatch client = c.activities[client]?.bind (·.waiting?) := by
  unfold waitingDispatch activities
  rw [List.getElem?_map, Option.bind_map]
  rfl

/-- What a part of the places is after the thread of one session has moved. -/
theorem bind_modify {β : Type*} {l : List SessionActivity} {old new : SessionActivity}
    (hold : l[index]? = some old) (part : SessionActivity → Option β) (i : ℕ) :
    (l.modify index fun _ => new)[i]?.bind part =
      if i = index then part new else l[i]?.bind part := by
  by_cases hi : i = index
  · subst hi
    rw [List.getElem?_modify_eq, hold, if_pos rfl]
    rfl
  · rw [List.getElem?_modify_ne _ _ (Ne.symm hi), if_neg hi]

/-- What a part of the places is after a connection. -/
theorem bind_append {β : Type*} {l : List SessionActivity} {part : SessionActivity → Option β}
    (h : part .reading = none) (i : ℕ) : (l ++ [.reading])[i]?.bind part = l[i]?.bind part := by
  rcases lt_or_ge i l.length with hi | hi
  · rw [List.getElem?_append_left hi]
  · rw [List.getElem?_append_right hi, List.getElem?_eq_none hi]
    cases ha : [SessionActivity.reading][i - l.length]? with
    | none => rfl
    | some activity =>
      obtain rfl := List.mem_singleton.mp (List.mem_of_getElem? ha)
      exact h

theorem Threads.dispatches_le (h : Threads c c' action) : c.dispatches ≤ c'.dispatches := by
  cases h with
  | stay _ hcount => exact hcount.ge
  | connect _ hcount => exact hcount.ge
  | move _ _ _ _ _ _ hcount => exact hcount

/-- A publication is handled until it is completed. -/
theorem Threads.handling (h : Threads c c' action) (hp : c.handling index = some p) :
    c'.handling index = some p ∨ action = .proceed index ∧
      ∃ status detail, c.activities[index]? = some (.validated p status detail) := by
  unfold Coordinator.handling at hp ⊢
  cases h with
  | stay hactivities =>
    rw [hactivities]
    exact Or.inl hp
  | connect hactivities =>
    rw [hactivities, bind_append rfl]
    exact Or.inl hp
  | move i old new hold hactivities hmoves =>
    rw [hactivities, bind_modify hold]
    split_ifs with hi
    · subst hi
      rw [hold, Option.bind_some] at hp
      refine (hmoves.publication p hp).imp_right ?_
      rintro ⟨haction, status, detail, rfl⟩
      exact ⟨haction, status, detail, hold⟩
    · exact Or.inl hp

/-- A dispatch that is open has been begun by the section, or was open before; in that case a thread
that waited for it still waits. -/
theorem Threads.openDispatch (h : Threads c c' action) (hd : c'.openDispatch client = some d) :
    (c.openDispatch client = some d ∧
      (c.waitingDispatch client = some d → c'.waitingDispatch client = some d)) ∨
    (d.number = c.dispatches ∧ c'.dispatches = c.dispatches + 1 ∧
      ∀ worker, d.worker = some worker → c.IsWorker worker) := by
  rw [openDispatch_eq] at hd ⊢
  rw [waitingDispatch_eq, waitingDispatch_eq]
  cases h with
  | stay hactivities =>
    rw [hactivities] at hd ⊢
    exact Or.inl ⟨hd, fun hwaiting => hwaiting⟩
  | connect hactivities =>
    rw [hactivities, bind_append rfl] at hd
    rw [hactivities, bind_append rfl]
    exact Or.inl ⟨hd, fun hwaiting => hwaiting⟩
  | move i old new hold hactivities hmoves =>
    rw [hactivities, bind_modify hold] at hd
    rw [hactivities, bind_modify hold]
    split_ifs at hd ⊢ with hi
    · subst hi
      rw [hold, Option.bind_some, Option.bind_some]
      refine (hmoves.dispatch d hd).imp_left ?_
      rintro ⟨hdispatch, hwaiting⟩
      refine ⟨hdispatch, fun hwaits => ?_⟩
      rw [hwaiting] at hwaits
      cases hwaits
    · exact Or.inl ⟨hd, fun hwaiting => hwaiting⟩

/-! ## Open dispatches -/

theorem isWorker_iff : c.IsWorker index ↔
    ∃ identity, (c.sessions.map Session.identity)[index]? = some identity ∧ identity.1 = true := by
  unfold IsWorker
  rw [List.getElem?_map]
  constructor
  · rintro ⟨session, hs, hrole⟩
    exact ⟨session.identity, by rw [hs, Option.map_some], hrole⟩
  · rintro ⟨identity, hidentity, hrole⟩
    obtain ⟨session, hs, rfl⟩ := Option.map_eq_some_iff.mp hidentity
    exact ⟨session, hs, hrole⟩

/-- A worker session stays one. -/
theorem IsWorker.step (h : c.IsWorker index) (hstep : c.step sha codec action = some c') :
    c'.IsWorker index := by
  rw [isWorker_iff] at h ⊢
  obtain ⟨identity, hidentity, hrole⟩ := h
  rcases identities_of_step hstep with heq | heq | ⟨i, boot, heq⟩
  · rw [heq]
    exact ⟨identity, hidentity, hrole⟩
  · rw [heq, List.getElem?_append_left (List.getElem?_eq_some_iff.mp hidentity).1]
    exact ⟨identity, hidentity, hrole⟩
  · rw [heq, List.getElem?_modify, hidentity]
    split_ifs
    · exact ⟨_, rfl, rfl⟩
    · exact ⟨_, rfl, hrole⟩

/-- The dispatches are numbered, and are relayed to workers. -/
structure DispatchesNumbered (c : Coordinator) : Prop where
  number_lt : ∀ client d, c.openDispatch client = some d → d.number < c.dispatches
  isWorker : ∀ client d worker, c.openDispatch client = some d → d.worker = some worker →
    c.IsWorker worker

theorem DispatchesNumbered.step (h : c.DispatchesNumbered)
    (hstep : c.step sha codec action = some c') : c'.DispatchesNumbered := by
  have hthreads := threads_of_step hstep
  refine ⟨fun client d hd => ?_, fun client d worker hd hworker => ?_⟩
  · rcases hthreads.openDispatch hd with ⟨hopen, -⟩ | ⟨hnumber, hcount, -⟩
    · exact (h.number_lt client d hopen).trans_le hthreads.dispatches_le
    · omega
  · rcases hthreads.openDispatch hd with ⟨hopen, -⟩ | ⟨-, -, hworkers⟩
    · exact (h.isWorker client d worker hopen hworker).step hstep
    · exact (hworkers worker hworker).step hstep

/-! ## Slots -/

/-- **What happens to the slot of a dispatch** that a client waits for, in a section that leaves the
slots to their dispatches: it is completed by the publication of its worker, or by the loss of its
worker's session, or it stays. -/
theorem lookup_of_step (hown : c.DispatchesOwn) (hkeeps : c.KeepsDispatches action)
    (hstep : c.step sha codec action = some c') (hd : c.waitingDispatch client = some d)
    (hd' : c'.openDispatch client = some d) {slot : Pending}
    (hlookup : c.pending.lookup d.request = some slot) :
    c'.pending.lookup d.request = some slot ∨ slot.ready = false ∧
      ((∃ index publication status detail, slot.worker = some index ∧
        c.activities[index]? = some (.validated publication status detail) ∧
        c'.pending.lookup d.request =
          some (slot.complete index publication status detail)) ∨
        ∃ index, slot.worker = some index ∧ c.activities[index]? = some .closing) := by
  have hopen := openDispatch_of_waitingDispatch hd
  -- another thread with a dispatch has another request
  have hother {i : ℕ} {session : Session} {other : Dispatch}
      (hs : c.sessions[i]? = some session) (hdispatch : session.activity.dispatch? = some other)
      (hi : i ≠ client) : d.request ≠ other.request := by
    intro hrequest
    refine hi (hown.distinct i client other d ?_ hopen hrequest.symm)
    unfold Coordinator.openDispatch
    rw [hs]
    exact hdispatch
  cases change_of_step hstep with
  | @complete index session hs publication status detail hactivity =>
    change (c.completedPending index publication status detail).lookup d.request = some slot ∨ _
    unfold completedPending
    cases hslot : c.openSlot publication.frame.request with
    | none => exact Or.inl hlookup
    | some found =>
      dsimp only
      by_cases hrequest : d.request = publication.frame.request
      · obtain ⟨hfound, hready⟩ := openSlot_eq_some hslot
        rw [← hrequest, hlookup] at hfound
        obtain rfl := Option.some.inj hfound
        have hworker := ((hkeeps session hs).2 publication (by rw [hactivity]; rfl) slot hslot).1
        refine Or.inr ⟨hready, Or.inl ⟨index, publication, status, detail, hworker,
          activities_getElem? hs hactivity, ?_⟩⟩
        change (c.completedPending index publication status detail).lookup d.request = _
        unfold completedPending
        rw [hslot, hrequest]
        exact AList.lookup_insert _
      · exact Or.inl ((AList.lookup_insert_ne hrequest).trans hlookup)
  | @dispatch index session hs epoch request payload hactivity =>
    have hnone := (hkeeps session hs).1 request (by rw [hactivity]; rfl)
    have hne : d.request ≠ request := by
      rintro rfl
      rw [hlookup] at hnone
      cases hnone
    refine Or.inl ?_
    unfold Coordinator.dispatch
    split <;> exact (AList.lookup_insert_ne hne).trans hlookup
  | @markUnwritable index session hs other hactivity =>
    have hindex : index ≠ client := by
      rintro rfl
      rw [waitingDispatch_eq, activities_getElem? hs hactivity] at hd
      cases hd
    have hne := hother hs (by rw [hactivity]; rfl) hindex
    exact Or.inl ((AList.lookup_insert_ne hne).trans hlookup)
  | @collect index session hs other hactivity =>
    by_cases hindex : index = client
    · subst hindex
      rw [openDispatch_eq, activities_collect,
        bind_modify (activities_getElem? hs hactivity), if_pos rfl] at hd'
      cases hd'
    · have hne := hother hs (by rw [hactivity]; rfl) hindex
      exact Or.inl ((AList.lookup_erase_ne hne).trans hlookup)
  | @release index session hs hactivity =>
    change (c.releaseOutstanding index session).lookup d.request = some slot ∨ _
    unfold releaseOutstanding
    split
    · exact Or.inl hlookup
    · next request hrequest =>
      split
      · exact Or.inl hlookup
      · next found hfound =>
        split_ifs with hready
        · exact Or.inl hlookup
        · by_cases hne : d.request = request
          · subst hne
            rw [hlookup] at hfound
            obtain rfl := Option.some.inj hfound
            obtain ⟨assigned, hassigned, hworker⟩ := hown.outstanding index d.request (by
              unfold Coordinator.outstanding
              rw [hs]
              exact hrequest)
            rw [hlookup] at hassigned
            obtain rfl := Option.some.inj hassigned
            exact Or.inr ⟨Bool.eq_false_of_not_eq_true hready,
              Or.inr ⟨index, hworker, activities_getElem? hs hactivity⟩⟩
          · exact Or.inl ((AList.lookup_insert_ne hne).trans hlookup)
  | _ => exact Or.inl hlookup

/-! ## Replies -/

/-- The relayed frame as the worker receives it. -/
def relayedFrame (d : Dispatch) : WireFrame where
  type := .planRequest
  coordinatorEpoch := d.relayEpoch
  sequence := .ofNat d.sequence
  request := d.request
  payload := d.payload

/-- The slot of the dispatch is ready with the outcome of the reply: the session of the worker has
published it, and an accepted one is the payload. -/
def Resolved (c : Coordinator) (d : Dispatch) (worker : ℕ) (reply : WireFrame) : Prop :=
  ∃ slot publication, c.pending.lookup d.request = some slot ∧ slot.ready = true ∧
    slot.completion = .published worker publication ∧ publication.frame = reply ∧
    (slot.status = .ok → slot.payload = reply.payload)

/-- **The reply resolves its dispatch**: in every run that begins with the reply and leaves the slots
to their dispatches, once the session of the worker has handled the reply and while the client still
waits, the slot is ready with its outcome. -/
def ReplyResolves (sha : List UInt8 → Sha256Digest) (codec : PayloadCodec) (c : Coordinator)
    (client worker : ℕ) (d : Dispatch) (reply : WireFrame) : Prop :=
  ∀ after c', StepsMeet (step sha codec) KeepsDispatches c
      (.receive worker reply (some d.number) :: after) →
    run (step sha codec) c (.receive worker reply (some d.number) :: after) = some c' →
    c'.handling worker = none → c'.waitingDispatch client = some d → c'.Resolved d worker reply

/-- Where the reply stands as long as the client waits: its session handles it and the slot is open,
or the slot is ready. -/
structure Resolving (c : Coordinator) (client worker : ℕ) (d : Dispatch) (p : Publication) :
    Prop where
  number_lt : d.number < c.dispatches
  state : c.openDispatch client = some d → c.waitingDispatch client = some d ∧
    ((c.handling worker = some p ∧ (c.openSlot d.request).isSome = true) ∨
      c.Resolved d worker p.frame)

theorem complete_resolved (slot : Pending) (status : WireStatus) (detail : String)
    (h : c.pending.lookup d.request = some (slot.complete worker p status detail)) :
    c.Resolved d worker p.frame := by
  refine ⟨_, p, h, ?_, ?_, rfl, ?_⟩
  all_goals unfold Pending.complete
  · split_ifs <;> rfl
  · split_ifs <;> rfl
  · split_ifs with hok
    · exact fun _ => rfl
    · exact fun hstatus => absurd hstatus hok

theorem handling_eq_some {publication : Publication} {status : WireStatus} {detail : String}
    (h : c.activities[index]? = some (.validated publication status detail)) :
    c.handling index = some publication := by
  unfold handling
  rw [h]
  rfl

/-- **The step lemma of a reply.** -/
theorem Resolving.step (h : c.Resolving client worker d p) (hown : c.DispatchesOwn)
    (hworker : d.worker = some worker) (hrequest : p.frame.request = d.request)
    (hkeeps : c.KeepsDispatches action) (hstep : c.step sha codec action = some c') :
    c'.Resolving client worker d p := by
  have hthreads := threads_of_step hstep
  refine ⟨h.number_lt.trans_le hthreads.dispatches_le, fun hd' => ?_⟩
  rcases hthreads.openDispatch hd' with ⟨hd, hwaits⟩ | ⟨hnumber, -, -⟩
  · obtain ⟨hwaiting, hstate⟩ := h.state hd
    refine ⟨hwaits hwaiting, ?_⟩
    obtain ⟨slot, hlookup, howns⟩ := hown.slot client d hd
    have hslotWorker : slot.worker = some worker := howns.worker.trans hworker
    have hcases := lookup_of_step hown hkeeps hstep hwaiting hd' hlookup
    rcases hstate with ⟨hhandling, hopen⟩ | ⟨found, publication, hfound, hready, hrest⟩
    · rcases hcases with hstays | ⟨-, ⟨index, publication, status, detail, hindex, hactivity,
        hcompleted⟩ | ⟨index, hindex, hactivity⟩⟩
      · -- the slot stays open until the publication is completed
        rcases hthreads.handling hhandling with hstill | ⟨rfl, status, detail, hactivity⟩
        · refine Or.inl ⟨hstill, ?_⟩
          unfold openSlot at hopen ⊢
          rw [hlookup] at hopen
          rw [hstays]
          exact hopen
        · refine Or.inr (complete_resolved slot status detail ?_)
          obtain ⟨session, hs, hproceed⟩ := Option.bind_eq_some_iff.mp hstep
          have hplace : session.activity = .validated p status detail := by
            rw [activities_getElem? hs rfl] at hactivity
            exact Option.some.inj hactivity
          unfold Coordinator.proceed at hproceed
          rw [hplace] at hproceed
          obtain rfl := Option.some.inj hproceed
          obtain ⟨found, hfound⟩ := Option.isSome_iff_exists.mp hopen
          have hsame := (openSlot_eq_some hfound).1
          rw [hlookup] at hsame
          obtain rfl := Option.some.inj hsame
          change (c.completedPending worker p status detail).lookup d.request = _
          unfold completedPending
          rw [hrequest, hfound]
          exact AList.lookup_insert _
      · obtain rfl := Option.some.inj (hslotWorker.symm.trans hindex)
        obtain rfl := Option.some.inj ((handling_eq_some hactivity).symm.trans hhandling)
        exact Or.inr (complete_resolved _ _ _ hcompleted)
      · -- a session that handles a publication is not released
        obtain rfl := Option.some.inj (hslotWorker.symm.trans hindex)
        unfold handling at hhandling
        rw [hactivity] at hhandling
        cases hhandling
    · rw [hlookup] at hfound
      obtain rfl := Option.some.inj hfound
      rcases hcases with hstays | ⟨hnot, -⟩
      · exact Or.inr ⟨slot, publication, hstays, hready, hrest⟩
      · rw [hready] at hnot
        cases hnot
  · exact absurd hnumber h.number_lt.ne

/-! ## Runs -/

theorem IsStarted.dispatchesNumbered (h : c.IsStarted) : c.DispatchesNumbered := by
  have hnone (client : ℕ) : c.openDispatch client = none := by
    unfold openDispatch
    rw [h.sessions]
    rfl
  refine ⟨fun client d hd => ?_, fun client d worker hd => ?_⟩
  · rw [hnone] at hd
    cases hd
  · rw [hnone] at hd
    cases hd

/-- What the session of a worker does with a result. -/
theorem step_planResult (sha : List UInt8 → Sha256Digest) (codec : PayloadCodec)
    {session : Session} (hs : c.sessions[index]? = some session)
    (hrole : session.workerRole = true) (hreading : session.activity = .reading)
    {frame : WireFrame} (htype : frame.type = .planResult) (answers : Option ℕ) :
    c.step sha codec (.receive index frame answers) =
      some (c.goto index (.publishing ⟨frame, answers, c.registeredSnapshot frame.workerBoot⟩)) := by
  unfold step
  dsimp only
  rw [hs]
  dsimp only
  rw [hreading]
  unfold receive
  rw [htype, if_pos hrole]

/-- What the session of a worker does with an error: nothing. -/
theorem step_planError (sha : List UInt8 → Sha256Digest) (codec : PayloadCodec)
    {session : Session} (hs : c.sessions[index]? = some session)
    (hrole : session.workerRole = true) (hreading : session.activity = .reading)
    {frame : WireFrame} (htype : frame.type = .planError) (answers : Option ℕ) :
    c.step sha codec (.receive index frame answers) = some c := by
  unfold step
  dsimp only
  rw [hs]
  dsimp only
  rw [hreading]
  unfold receive receiveUnsupported
  rw [htype]
  dsimp only
  rw [if_pos hrole]

/-- An error of a worker leaves its dispatch unresolved. -/
theorem not_replyResolves_of_planError (hd : c.waitingDispatch client = some d)
    (hworker : c.IsWorker worker) (hopen : (c.openSlot d.request).isSome = true)
    (hreading : c.activities[worker]? = some .reading) {reply : WireFrame}
    (htype : reply.type = .planError) : ¬ c.ReplyResolves sha codec client worker d reply := by
  intro hresolves
  obtain ⟨session, hs, hrole⟩ := hworker
  have hactivity : session.activity = .reading := by
    rw [activities_getElem? hs rfl] at hreading
    exact Option.some.inj hreading
  have hstep := step_planError sha codec hs hrole hactivity htype
    (some d.number)
  have hhandling : c.handling worker = none := by
    unfold handling
    rw [hreading]
    rfl
  obtain ⟨slot, publication, hlookup, hready, -⟩ := hresolves [] c
    (stepsMeet_cons.mpr ⟨trivial, fun _ _ => stepsMeet_nil⟩)
    (by rw [run_cons, hstep, Option.bind_some, run_nil]) hhandling hd
  obtain ⟨found, hfound⟩ := Option.isSome_iff_exists.mp hopen
  obtain ⟨hsame, hnot⟩ := openSlot_eq_some hfound
  rw [hlookup] at hsame
  obtain rfl := Option.some.inj hsame
  rw [hready] at hnot
  cases hnot

/-- A publication that the session begins to handle is resolving. -/
theorem resolving_publishing (hnumber : d.number < c.dispatches)
    (hd : c.waitingDispatch client = some d)
    (hreading : c.activities[worker]? = some .reading)
    (hopen : (c.openSlot d.request).isSome = true) (p : Publication) :
    (c.goto worker (.publishing p)).Resolving client worker d p := by
  refine ⟨hnumber, fun _ => ⟨?_, Or.inl ⟨?_, hopen⟩⟩⟩
  · rw [waitingDispatch_eq, activities_goto, bind_modify hreading]
    split_ifs with hclient
    · subst hclient
      rw [waitingDispatch_eq, hreading] at hd
      cases hd
    · rw [← waitingDispatch_eq]
      exact hd
  · unfold handling
    rw [activities_goto, bind_modify hreading, if_pos rfl]
    rfl

/-- **A reply resolves its dispatch exactly when the worker serves the request**: a worker in any
state answers the frame that a dispatch has relayed to it, when the client waits, the slot is still
open and the session of the worker is reading. A result completes the slot, whatever the order of
the sections after it; an error leaves it open, and the client waits for the receive bound. -/
theorem replyResolves_iff {start : Coordinator} {before : List CoordinatorAction}
    (hstart : start.IsStarted) (hbefore : StepsMeet (step sha codec) KeepsDispatches start before)
    (hrun : run (step sha codec) start before = some c) (hd : c.waitingDispatch client = some d)
    (hworker : d.worker = some worker) (hopen : (c.openSlot d.request).isSome = true)
    (hreading : c.activities[worker]? = some .reading) {w w' : Worker} {reply : WorkerFrame}
    (hphase : w.phase = .serving) (hserve : w.step sha (.receive (relayedFrame d)) = some w')
    (hreply : w'.sent = w.sent ++ [reply]) :
    c.ReplyResolves sha codec client worker d (reply.received w.config.limits) ↔
      w.Serves sha (relayedFrame d) := by
  have hown : c.DispatchesOwn :=
    hbefore.invariant (fun _ _ _ hk hs h => h.step hk hs) hrun hstart.dispatchesOwn
  have hnumbered : c.DispatchesNumbered :=
    invariant_of_run (fun _ _ _ hs h => h.step hs) hrun hstart.dispatchesNumbered
  have hd' := openDispatch_of_waitingDispatch hd
  obtain ⟨session, hs, hrole⟩ := hnumbered.isWorker client d worker hd' hworker
  have hactivity : session.activity = .reading := by
    rw [activities_getElem? hs rfl] at hreading
    exact Option.some.inj hreading
  rw [Worker.sent_of_receive rfl hphase hserve] at hreply
  obtain rfl := List.singleton_inj.mp (List.append_cancel_left hreply)
  rcases w.type_reply sha (relayedFrame d) w.config.limits with
    ⟨hserves, htype⟩ | ⟨hserves, htype⟩
  · refine iff_of_true (fun after c' hkeeps hafter hhandling hwaiting => ?_) hserves
    have hstep := step_planResult sha codec hs hrole hactivity htype
      (some d.number)
    rw [run_cons, hstep, Option.bind_some] at hafter
    have hrest := (stepsMeet_cons.mp hkeeps).2 _ hstep
    have hown₁ : (c.goto worker (.publishing _)).DispatchesOwn :=
      DispatchesOwn.step (stepsMeet_cons.mp hkeeps).1 hstep hown
    have hresolving := resolving_publishing (hnumbered.number_lt client d hd') hd hreading hopen
      ⟨(w.reply sha (relayedFrame d)).received w.config.limits, some d.number,
        c.registeredSnapshot ((w.reply sha (relayedFrame d)).received w.config.limits).workerBoot⟩
    have hreached := (hrest.invariant (I := fun t : Coordinator => t.DispatchesOwn ∧
      t.Resolving client worker d _) (fun _ _ _ hk hs h =>
        ⟨h.1.step hk hs, h.2.step h.1 hworker rfl hk hs⟩) hafter ⟨hown₁, hresolving⟩).2
    rcases (hreached.state (openDispatch_of_waitingDispatch hwaiting)).2 with
      ⟨hstill, -⟩ | hresolved
    · rw [hhandling] at hstill
      cases hstill
    · exact hresolved
  · exact iff_of_false (not_replyResolves_of_planError hd ⟨session, hs, hrole⟩ hopen hreading htype)
      hserves

/-! ## Workers with other limits -/

/-- A request for a path that avoids two nodes. -/
def avoidingRequest : PlanningRequest :=
  { PlanningRequest.between 1 2 with
    constraints := { id := .tagged 0 1, forbiddenNodes := [.tagged 0 8, .tagged 0 9] } }

/-- The frame of a client with the request. -/
def avoidingFrame : WireFrame where
  type := .planRequest
  request := avoidingRequest.id
  payload := (encodePlanningRequestPayload (.new 65536) avoidingRequest).data

/-- A worker registers, and a request of a client is relayed to it. -/
def relaying : List CoordinatorAction :=
  registration ++ [.connect, .receive 1 avoidingFrame none, .proceed 1, .proceed 1]

/-- The coordinator while the client waits. -/
def relayingCoordinator : Coordinator :=
  (run (step constantHash (wireCodec constantHash)) earlyCoordinator relaying).get
    (by decide +kernel)

/-- The worker after its registration, with the limits of its configuration. -/
def servingWorker (limits : ResourceLimits) : Worker :=
  let worker := Worker.new { numberedWorker (some singleLink) 1 with limits := limits }
    (.replicate 8 0) (.replicate 8 0)
  worker.greet.register
    { type := .snapshotResponse
      payload := (encodeSnapshotResponsePayload (.new 65536) worker.describeSnapshot).data }

/-- Limits under which a list of identities has one entry. -/
def oneIdentity : ResourceLimits := { maxForbiddenIds := 1 }

theorem servingWorker_limits (limits : ResourceLimits) :
    (servingWorker limits).config.limits = limits := by
  unfold servingWorker
  dsimp only
  rw [Worker.register_config]
  rfl

theorem payload_avoidingFrame : avoidingFrame.payload = avoidingRequest.word := by
  have hlength : avoidingRequest.word.length ≤ 65536 := by decide +kernel
  unfold avoidingFrame
  rw [data_encodePlanningRequestPayload hlength]

theorem avoidingRequest_isSendable : avoidingRequest.IsSendable {} := by
  refine ⟨?_, ?_⟩
  · constructor <;> decide +kernel
  · decide +kernel

/-- A worker with the limits of the coordinator serves the request. -/
theorem serves_avoidingRequest {frame : WireFrame} (h : frame.payload = avoidingFrame.payload) :
    (servingWorker {}).Serves constantHash frame := by
  refine ⟨avoidingRequest, ?_, ?_⟩
  · have hlimits : validateLimits {} = none := by decide
    rw [servingWorker_limits, h, payload_avoidingFrame]
    unfold wireCodec
    rw [codecResult_eq_ok_iff, decodeRequestBytes_eq_ok_iff {} hlimits]
    exact ⟨avoidingRequest_isSendable, rfl⟩
  · apply overflowed_encodePlanningResultPayload
    rw [servingWorker_limits]
    decide +kernel

/-- A worker with narrower limits does not serve it. -/
theorem not_serves_avoidingRequest {frame : WireFrame}
    (h : frame.payload = avoidingFrame.payload) :
    ¬ (servingWorker oneIdentity).Serves constantHash frame := by
  rintro ⟨request, hdecode, -⟩
  rw [servingWorker_limits, h, payload_avoidingFrame] at hdecode
  unfold wireCodec at hdecode
  dsimp only at hdecode
  rw [codecResult_eq_ok_iff] at hdecode
  have hrefused : (decodeRequestBytes oneIdentity avoidingRequest.word).toBool = false := by
    decide +kernel
  rw [hdecode] at hrefused
  cases hrefused

/-- The request is relayed to a worker whose session reads frames. -/
theorem relayingCoordinator_waits : ∃ d, relayingCoordinator.waitingDispatch 1 = some d ∧
    d.worker = some 0 ∧ (relayingCoordinator.openSlot d.request).isSome = true ∧
    relayingCoordinator.IsWorker 0 ∧ relayingCoordinator.activities[0]? = some .reading ∧
    (relayedFrame d).payload = avoidingFrame.payload := by
  have hrelayed : ∃ d ∈ relayingCoordinator.waitingDispatch 1,
      ∃ session ∈ relayingCoordinator.sessions[0]?,
        d.worker = some 0 ∧ (relayingCoordinator.openSlot d.request).isSome = true ∧
        session.workerRole = true ∧ session.activity.isReading = true ∧
        d.payload = avoidingFrame.payload := by
    decide +kernel
  obtain ⟨d, hd, session, hs, hworker, hopen, hrole, hreading, hpayload⟩ := hrelayed
  exact ⟨d, hd, hworker, hopen, ⟨session, hs, hrole⟩,
    activities_getElem? hs (SessionActivity.isReading_iff.mp hreading), hpayload⟩

/-- A worker that serves its session answers. -/
theorem step_servingWorker (sha : List UInt8 → Sha256Digest) {limits : ResourceLimits}
    (frame : WireFrame) (hphase : (servingWorker limits).phase = .serving) :
    (servingWorker limits).step sha (.receive frame) =
      some ((servingWorker limits).serve sha frame) := by
  unfold Worker.step
  rw [hphase]

theorem replyResolves_iff_servingWorker : ∃ d w reply,
    relayingCoordinator.waitingDispatch 1 = some d ∧
      (servingWorker {}).step constantHash (.receive (relayedFrame d)) = some w ∧
      w.sent = (servingWorker {}).sent ++ [reply] ∧
      relayingCoordinator.ReplyResolves constantHash (wireCodec constantHash) 1 0 d
        (reply.received {}) := by
  obtain ⟨d, hd, hworker, hopen, -, hreading, hpayload⟩ := relayingCoordinator_waits
  have hserves := serves_avoidingRequest hpayload
  have hphase : (servingWorker {}).phase = .serving := by decide +kernel
  have hserve := step_servingWorker constantHash (relayedFrame d) hphase
  have hreply := Worker.sent_of_receive rfl hphase hserve
  have hstart : earlyCoordinator.IsStarted := ⟨rfl, rfl, rfl⟩
  have hrun : run (step constantHash (wireCodec constantHash)) earlyCoordinator relaying =
    some relayingCoordinator := (Option.some_get _).symm
  have hresolves := (replyResolves_iff hstart (by decide +kernel) hrun hd hworker hopen hreading
    hphase hserve hreply).mpr hserves
  rw [servingWorker_limits] at hresolves
  exact ⟨d, _, _, hd, hserve, hreply, hresolves⟩

/-- A worker with narrower limits than the coordinator answers with an error, and the client waits
for the receive bound. -/
theorem not_replyResolves_oneIdentity : validateLimits oneIdentity = none ∧
    ¬ ∀ limits : ResourceLimits, validateLimits limits = none → ∀ d w reply,
      relayingCoordinator.waitingDispatch 1 = some d →
      (servingWorker limits).step constantHash (.receive (relayedFrame d)) = some w →
      w.sent = (servingWorker limits).sent ++ [reply] →
      relayingCoordinator.ReplyResolves constantHash (wireCodec constantHash) 1 0 d
        (reply.received limits) := by
  have hlimits : validateLimits oneIdentity = none := by decide
  refine ⟨hlimits, fun h => ?_⟩
  obtain ⟨d, hd, -, hopen, hworker, hreading, hpayload⟩ := relayingCoordinator_waits
  have hphase : (servingWorker oneIdentity).phase = .serving := by decide +kernel
  have hserve := step_servingWorker constantHash (relayedFrame d) hphase
  obtain ⟨hserves, -⟩ | ⟨-, htype⟩ :=
    (servingWorker oneIdentity).type_reply constantHash (relayedFrame d) oneIdentity
  · exact absurd hserves (not_serves_avoidingRequest hpayload)
  exact not_replyResolves_of_planError hd hworker hopen hreading htype
    (h oneIdentity hlimits d _ _ hd hserve (Worker.sent_of_receive rfl hphase hserve))

end Coordinator

end PathPlanner
