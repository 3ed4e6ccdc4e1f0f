import PathPlanner.Coordinator.Reply

/-!
# What a section sends, and where to

A section moves the thread of one session and leaves the other sessions where they are. The frames that
it sends go to the session of the thread, or to a worker; the payloads that it passes on are those of
frames that have been received.

## Main definitions

* `Coordinator.TargetsWorkers`: the sessions that other threads write to are those of workers
* `Coordinator.PayloadsFit`: the payloads that are passed on have a length of 32 bits
* `Coordinator.Local`: what the section of a thread leaves to the others

## Main results

* `Coordinator.TargetsWorkers.step`, `Coordinator.PayloadsFit.step`: the step lemmas
* `Coordinator.local_receive`, `Coordinator.local_proceed`: **sections are local**
-/

namespace PathPlanner

open Run

/-- The sessions that the rest of a call writes to. -/
def CallRest.targets : CallRest → List ℕ
  | .advanceRuntime _ notices => notices.map (·.session)
  | .publishRuntime _ => []
  | .notifyFence session _ => [session]

/-- Where the thread of a session stands, and whether the session is that of a worker. -/
def Session.place (session : Session) : SessionActivity × Bool :=
  (session.activity, session.workerRole)

namespace Coordinator

variable {sha : List UInt8 → Sha256Digest} {codec : PayloadCodec} {c c' : Coordinator}
  {action : CoordinatorAction} {index : ℕ}

/-! ## The sessions that are written to -/

/-- The sessions that are written to by others than their own thread are those of workers. -/
structure TargetsWorkers (c : Coordinator) : Prop where
  dispatches : ∀ client d, c.openDispatch client = some d →
    ∀ worker, d.worker = some worker → c.IsWorker worker
  calls : ∀ call ∈ c.calls, ∀ session ∈ CallRest.targets call, c.IsWorker session
  bootKeys : ∀ identity ∈ c.sessions.map Session.identity, identity.2.isSome = true →
    identity.1 = true

/-- A coordinator without sessions writes to none. -/
theorem TargetsWorkers.of_empty (hsessions : c.sessions = []) (hcalls : c.calls = []) :
    c.TargetsWorkers where
  dispatches client d hd := by
    rw [openDispatch, hsessions] at hd
    cases hd
  calls call hcall := by
    rw [hcalls] at hcall
    cases hcall
  bootKeys identity hidentity := by
    rw [hsessions] at hidentity
    cases hidentity

/-- The notices of an advance go to workers. -/
theorem isWorker_of_mem_advanceNotices {epoch : FabricEpoch} {notice : SentFrame}
    (h : notice ∈ c.advanceNotices epoch) : c.IsWorker notice.session := by
  unfold advanceNotices at h
  obtain ⟨position, hposition, rfl⟩ := List.mem_mapIdx.mp h
  have hsocket := List.getElem_mem hposition
  obtain ⟨hmem, hrole⟩ := List.mem_filter.mp hsocket
  exact ⟨_, List.mem_zipIdx_iff_getElem?.mp hmem, hrole⟩

/-- A fence notice goes to a worker. -/
theorem TargetsWorkers.isWorker_of_fenceTarget (h : c.TargetsWorkers) {boot : WorkerBootId}
    {session : ℕ} (htarget : c.fenceTarget boot = some session) : c.IsWorker session := by
  unfold fenceTarget at htarget
  split at htarget
  · next found position hlast =>
    split_ifs at htarget
    obtain rfl := Option.some.inj htarget
    obtain ⟨hmem, hkey⟩ := List.mem_filter.mp (List.mem_of_getLast? hlast)
    have hfound := List.mem_zipIdx_iff_getElem?.mp hmem
    have hidentity : found.identity ∈ c.sessions.map Session.identity :=
      List.mem_map_of_mem (List.mem_of_getElem? hfound)
    refine ⟨found, hfound, h.bootKeys _ hidentity ?_⟩
    rw [Session.identity, of_decide_eq_true hkey]
    rfl
  · cases htarget

/-- A frame is relayed to a worker. -/
theorem TargetsWorkers.isWorker_of_relaying (h : c.TargetsWorkers) {session : Session}
    (hs : c.sessions[index]? = some session) {d : Dispatch}
    (hactivity : session.activity = .relaying d) {worker : ℕ} (hworker : d.worker = some worker) :
    c.IsWorker worker := by
  refine h.dispatches index d ?_ worker hworker
  rw [openDispatch, hs, Option.bind_some, hactivity]
  rfl

/-- The calls after a section: those before it, and calls that write to workers. -/
theorem TargetsWorkers.calls_of_step (h : c.TargetsWorkers)
    (hstep : c.step sha codec action = some c') :
    ∀ call ∈ c'.calls, call ∈ c.calls ∨ ∀ session ∈ CallRest.targets call, c.IsWorker session := by
  intro call hcall
  cases action with
  | fenceWorker boot =>
    obtain rfl := Option.some.inj hstep
    unfold Coordinator.fenceWorker at hcall
    split at hcall
    · exact Or.inl hcall
    · next registration _ =>
      dsimp only at hcall
      split at hcall
      · exact Or.inl hcall
      · next session htarget =>
        refine (List.mem_append.mp hcall).imp_right fun hmem => ?_
        obtain rfl := List.mem_singleton.mp hmem
        intro target hsession
        obtain rfl := List.mem_singleton.mp hsession
        exact h.isWorker_of_fenceTarget htarget
  | advanceEpoch epoch =>
    unfold step advanceEpoch at hstep
    dsimp only at hstep
    split_ifs at hstep
    · obtain rfl := Option.some.inj hstep
      exact Or.inl hcall
    · obtain rfl := Option.some.inj hstep
      refine (List.mem_append.mp hcall).imp_right fun hmem => ?_
      obtain rfl := List.mem_singleton.mp hmem
      intro target hsession
      obtain ⟨notice, hnotice, rfl⟩ := List.mem_map.mp hsession
      exact isWorker_of_mem_advanceNotices hnotice
  | publishSnapshot snapshot epoch =>
    obtain rfl := Option.some.inj hstep
    refine (List.mem_append.mp hcall).imp_right fun hmem => ?_
    obtain rfl := List.mem_singleton.mp hmem
    exact nofun
  | finishCall position =>
    obtain ⟨rest, hrest, rfl⟩ := Option.map_eq_some_iff.mp hstep
    refine Or.inl (List.mem_of_mem_eraseIdx (i := position) ?_)
    cases rest <;> exact hcall
  | proceed =>
    refine Or.inl ?_
    cases change_of_step hstep with
    | dispatch =>
      unfold Coordinator.dispatch at hcall
      split at hcall <;> exact hcall
    | _ => exact hcall
  | connect | receive | sendFails | finish | release | runtime =>
    refine Or.inl ?_
    cases change_of_step hstep <;> exact hcall

/-- **The sessions that others write to** stay those of workers. -/
theorem TargetsWorkers.step (h : c.TargetsWorkers) (hstep : c.step sha codec action = some c') :
    c'.TargetsWorkers where
  dispatches client d hd worker hworker := by
    rcases (threads_of_step hstep).openDispatch hd with ⟨hold, -⟩ | ⟨-, -, hnew⟩
    · exact (h.dispatches client d hold worker hworker).step hstep
    · exact (hnew worker hworker).step hstep
  calls call hcall session hsession := by
    rcases h.calls_of_step hstep call hcall with hold | hnew
    · exact (h.calls call hold session hsession).step hstep
    · exact (hnew session hsession).step hstep
  bootKeys identity hidentity hkey := by
    rcases identities_of_step hstep with heq | heq | ⟨i, boot, heq⟩
    · exact h.bootKeys identity (heq ▸ hidentity) hkey
    · rw [heq, List.mem_append] at hidentity
      rcases hidentity with hold | hnew
      · exact h.bootKeys identity hold hkey
      · obtain rfl := List.mem_singleton.mp hnew
        cases hkey
    · rw [heq] at hidentity
      obtain ⟨j, hj⟩ := List.mem_iff_getElem?.mp hidentity
      rw [List.getElem?_modify] at hj
      obtain ⟨old, hold, rfl⟩ := Option.map_eq_some_iff.mp hj
      split_ifs at hkey ⊢
      · rfl
      · exact h.bootKeys old (List.mem_of_getElem? hold) hkey

/-! ## Payloads -/

/-- A payload whose length a frame can declare. -/
def Declarable (payload : List UInt8) : Prop := payload.length < 2 ^ 32

/-- The payloads that are passed on to clients can be declared. -/
structure PayloadsFit (c : Coordinator) : Prop where
  publications : ∀ index p, c.handling index = some p → Declarable p.frame.payload
  slots : ∀ request slot, c.pending.lookup request = some slot → Declarable slot.payload

/-- What is received is what a frame can declare. -/
def ReadsFrames : CoordinatorAction → Prop
  | .receive _ frame _ => Declarable frame.payload
  | _ => True

/-- A coordinator without sessions and slots passes nothing on. -/
theorem PayloadsFit.of_empty (hsessions : c.sessions = []) (hpending : c.pending = ∅) :
    c.PayloadsFit where
  publications index p hp := by
    rw [Coordinator.handling, activities, hsessions] at hp
    cases hp
  slots request slot hslot := by
    rw [hpending] at hslot
    cases hslot

/-- The thread of one session has moved to a place without a publication of its own. -/
theorem PayloadsFit.move (h : c.PayloadsFit) {old new : SessionActivity}
    (hold : c.activities[index]? = some old)
    (hactivities : c'.activities = c.activities.modify index fun _ => new)
    (hnew : ∀ p, new.publication? = some p → Declarable p.frame.payload)
    (hslots : ∀ request slot, c'.pending.lookup request = some slot → Declarable slot.payload) :
    c'.PayloadsFit where
  publications i p hp := by
    unfold Coordinator.handling at hp
    rw [hactivities, bind_modify hold] at hp
    split_ifs at hp
    · exact hnew p hp
    · exact h.publications i p hp
  slots := hslots

theorem PayloadsFit.of_activities (h : c.PayloadsFit) (hactivities : c'.activities = c.activities)
    (hpending : c'.pending = c.pending) : c'.PayloadsFit where
  publications i p hp := h.publications i p (by rwa [Coordinator.handling, ← hactivities])
  slots request slot hslot := h.slots request slot (hpending ▸ hslot)

/-- A slot is filled with a payload that can be declared. -/
theorem PayloadsFit.insert (h : c.PayloadsFit) {request : PlanningRequestId} {slot : Pending}
    (hslot : Declarable slot.payload) : ∀ key found,
      (c.pending.insert request slot).lookup key = some found → Declarable found.payload := by
  intro key found hfound
  by_cases hkey : key = request
  · subst hkey
    rw [AList.lookup_insert] at hfound
    obtain rfl := Option.some.inj hfound
    exact hslot
  · rw [AList.lookup_insert_ne hkey] at hfound
    exact h.slots key found hfound

theorem declarable_nil : Declarable [] := Nat.two_pow_pos 32

/-- **The payloads that are passed on** stay within what a frame can declare. -/
theorem PayloadsFit.step (h : c.PayloadsFit) (hreads : ReadsFrames action)
    (hstep : c.step sha codec action = some c') : c'.PayloadsFit := by
  cases change_of_step hstep with
  | stay => exact h
  | connect =>
    refine ⟨fun i p hp => h.publications i p ?_, h.slots⟩
    unfold Coordinator.handling at hp ⊢
    rwa [show ({ c with
      sessions := c.sessions ++ [{}]
      sessionCount := c.sessionCount + 1 } : Coordinator).activities =
        c.activities ++ [.reading] from List.map_append .., bind_append rfl] at hp
  | quiet hs hquiet activity hquiet' frames =>
    refine h.move (activities_getElem? hs rfl) (activities_goto _) (fun p hp => ?_) h.slots
    rw [hquiet'.publication] at hp
    cases hp
  | publishing hs hactivity frame answers =>
    refine h.move (activities_getElem? hs hactivity) (activities_goto _) (fun p hp => ?_) h.slots
    obtain rfl := Option.some.inj hp
    exact hreads
  | @validated index session hs publication hactivity =>
    refine h.move (activities_getElem? hs hactivity) (activities_goto _) (fun p hp => ?_) h.slots
    refine h.publications index p ?_
    rw [Coordinator.handling, activities_getElem? hs hactivity]
    exact hp
  | @complete index session hs publication status detail hactivity =>
    have hpublication : Declarable publication.frame.payload := by
      refine h.publications index publication ?_
      rw [Coordinator.handling, activities_getElem? hs hactivity]
      rfl
    refine h.move (activities_getElem? hs hactivity) (activities_goto _) (fun p hp => ?_) ?_
    · unfold afterCompletion at hp
      split_ifs at hp
      · split at hp <;> cases hp
      · cases hp
    · change ∀ key found, (c.completedPending index publication status detail).lookup key =
        some found → _
      unfold completedPending
      split
      · next slot hslot =>
        refine h.insert ?_
        have hold := h.slots _ slot (Option.filter_eq_some_iff.mp hslot).1
        unfold Pending.complete
        split_ifs
        · exact hpublication
        · exact hold
      · exact h.slots
  | @register index session hs frame hello capture hactivity =>
    exact h.move (activities_getElem? hs hactivity) (activities_register hello capture) nofun h.slots
  | retain hs hactivity activity hquiet =>
    refine h.move (activities_getElem? hs hactivity) (activities_goto _) (fun p hp => ?_) h.slots
    rw [hquiet.publication] at hp
    cases hp
  | record hs hactivity =>
    exact h.move (activities_getElem? hs hactivity) (activities_goto _) nofun h.slots
  | @dispatch index session hs epoch request payload hactivity =>
    obtain ⟨activity, d, hactivities, hd, -⟩ :=
      activities_dispatch c index epoch request payload
    refine h.move (activities_getElem? hs hactivity) hactivities (fun p hp => ?_) ?_
    · cases activity <;> cases hp <;> cases hd
    · unfold Coordinator.dispatch
      split <;> exact h.insert declarable_nil
  | relay hs hactivity =>
    exact h.move (activities_getElem? hs hactivity) (activities_goto _) nofun h.slots
  | sendFails hs hactivity =>
    exact h.move (activities_getElem? hs hactivity) (activities_goto _) nofun h.slots
  | @markUnwritable index session hs d hactivity =>
    refine h.move (activities_getElem? hs hactivity) (activities_goto _) nofun (h.insert ?_)
    change Declarable ((c.pending.lookup d.request).getD { dispatch := d.number }).payload
    cases hslot : c.pending.lookup d.request with
    | none => exact declarable_nil
    | some slot => exact h.slots _ slot hslot
  | @collect index session hs d hactivity =>
    refine h.move (activities_getElem? hs hactivity) (activities_collect _) nofun ?_
    intro key found hfound
    change (c.pending.erase d.request).lookup key = some found at hfound
    by_cases hkey : key = d.request
    · rw [hkey, AList.lookup_erase] at hfound
      cases hfound
    · rw [AList.lookup_erase_ne hkey] at hfound
      exact h.slots key found hfound
  | finish hs hquiet =>
    exact h.move (activities_getElem? hs rfl) activities_finish nofun h.slots
  | @release index session hs hactivity =>
    refine h.move (activities_getElem? hs hactivity) (activities_release _) nofun ?_
    change ∀ key found, (c.releaseOutstanding index session).lookup key = some found → _
    unfold releaseOutstanding
    split
    · exact h.slots
    · next request _ =>
      split
      · exact h.slots
      · next slot hslot =>
        split_ifs
        · exact h.slots
        · exact h.insert (h.slots _ slot hslot)
  | fenceWorker => exact h.of_activities rfl rfl
  | advanceEpoch => exact h.of_activities rfl rfl
  | publishSnapshot => exact h.of_activities rfl rfl
  | advanceRuntime => exact h.of_activities rfl rfl
  | publishRuntime => exact h.of_activities rfl rfl
  | notifyFence => exact h.of_activities rfl rfl
  | runtime => exact h.of_activities rfl rfl

/-! ## Sections of one thread -/

/-- The places of all sessions. -/
def places (c : Coordinator) : List (SessionActivity × Bool) := c.sessions.map Session.place

/-- The section of a thread leaves the other sessions where they are, and sends the frames. -/
structure Local (c c' : Coordinator) (index : ℕ) (place : SessionActivity × Bool)
    (frames : List SentFrame) : Prop where
  place : c'.places[index]? = some place
  others : ∀ i, i ≠ index → c'.places[i]? = c.places[i]?
  sent : c'.sent = c.sent ++ frames

section Local

variable {session : Session} {frames : List SentFrame}

theorem places_getElem? (hs : c.sessions[index]? = some session) :
    c.places[index]? = some session.place := by
  unfold places
  rw [List.getElem?_map, hs]
  rfl

theorem Local.of_modify {g : SessionActivity × Bool → SessionActivity × Bool}
    (hs : c.sessions[index]? = some session) (hplaces : c'.places = c.places.modify index g)
    (hsent : c'.sent = c.sent ++ frames) : Local c c' index (g session.place) frames where
  place := by rw [hplaces, List.getElem?_modify_eq, places_getElem? hs]; rfl
  others i hi := by rw [hplaces, List.getElem?_modify_ne _ _ (Ne.symm hi)]
  sent := hsent

theorem places_goto (activity : SessionActivity) :
    (c.goto index activity).places = c.places.modify index fun p => (activity, p.2) :=
  map_modify _ _ fun _ => rfl

/-- A thread goes to another place and sends frames. -/
theorem Local.goto (hs : c.sessions[index]? = some session) (activity : SessionActivity)
    (frames : List SentFrame) :
    Local c ((c.goto index activity).send frames) index (activity, session.workerRole) frames :=
  .of_modify (g := fun p => (activity, p.2)) hs (places_goto activity) rfl

/-- A thread goes to another place. -/
theorem Local.goto_nil (hs : c.sessions[index]? = some session) (activity : SessionActivity) :
    Local c (c.goto index activity) index (activity, session.workerRole) [] := by
  have h := Local.goto hs activity []
  rwa [send_nil] at h

/-- A thread stays where it is. -/
theorem Local.stay (hs : c.sessions[index]? = some session) :
    Local c c index session.place [] where
  place := places_getElem? hs
  others _ _ := rfl
  sent := (List.append_nil _).symm

theorem Local.dispatch (hs : c.sessions[index]? = some session) (epoch : CoordinatorEpoch)
    (request : PlanningRequestId) (payload : List UInt8) :
    ∃ d : Dispatch, d.request = request ∧ ∃ activity,
      (activity = .waiting d ∨ activity = .relaying d) ∧
      Local c (c.dispatch index epoch request payload) index (activity, session.workerRole) [] := by
  unfold Coordinator.dispatch
  split
  · exact ⟨⟨epoch, request, payload, c.dispatches, none, default, 0⟩, rfl, _, Or.inl rfl,
      .of_modify (g := fun p => (_, p.2)) hs (places_goto _) (List.append_nil _).symm⟩
  · next worker _ =>
    refine ⟨⟨epoch, request, payload, c.dispatches, some worker, c.sendEpoch, c.nextSequence⟩, rfl,
      _, Or.inr rfl, .of_modify (g := fun p => (_, p.2)) hs ((places_goto _).trans ?_)
        (List.append_nil _).symm⟩
    -- the worker that is chosen stays where it stands
    have hworker : (c.sessions.modify worker fun s =>
        { s with outstandingRequest := some request }).map Session.place = c.places := by
      rw [map_modify Session.place id ?_, List.modify_id]
      · rfl
      · exact fun _ => rfl
    exact congrArg (List.modify · index _) hworker

theorem Local.collect (hs : c.sessions[index]? = some session) (d : Dispatch) :
    Local c (c.collect index d) index (.reading, session.workerRole)
      [replyFrame index d (outcomeOf (c.pending.lookup d.request))] := by
  refine .of_modify (g := fun p => (.reading, p.2)) hs
    ((places_goto _).trans (congrArg (List.modify · index _) ?_)) rfl
  unfold places
  rw [List.map_map]
  refine List.map_congr_left fun s _ => ?_
  change (s.clearOutstanding d.request).place = s.place
  unfold Session.clearOutstanding
  split_ifs <;> rfl

end Local

/-- The frames of a section go to the session of its thread, or to the worker of its dispatch. -/
def Addressed (index : ℕ) (activity : SessionActivity) (frame : SentFrame) : Prop :=
  frame.session = index ∨ ∃ d, activity = .relaying d ∧ d.worker = some frame.session

section Threads

variable {session : Session}

variable (codec) in
/-- The frames that the reading thread sends go to its own session. -/
theorem local_receive (hs : c.sessions[index]? = some session) (frame : WireFrame)
    (answers : Option ℕ) : ∃ place frames,
      Local c (c.receive codec index session frame answers) index place frames ∧
      ∀ sent ∈ frames, sent.session = index := by
  have hnone : ∀ sent ∈ ([] : List SentFrame), sent.session = index := List.forall_mem_nil _
  have hone {sent : SentFrame} (h : sent.session = index) :
      ∀ s : SentFrame, s ∈ [sent] → s.session = index :=
    List.forall_mem_singleton.mpr h
  have hhello : ∃ place frames, Local c (c.receiveHello codec index session frame) index place
      frames ∧ ∀ sent ∈ frames, sent.session = index := by
    unfold receiveHello
    split
    · exact ⟨_, _, .goto hs _ _, hone rfl⟩
    · split_ifs
      · exact ⟨_, _, .goto hs _ _, hone rfl⟩
      · exact ⟨_, _, .goto_nil hs _, hnone⟩
  have hunsupported : ∃ place frames, Local c (c.receiveUnsupported index session frame) index
      place frames ∧ ∀ sent ∈ frames, sent.session = index := by
    unfold receiveUnsupported
    split_ifs
    · exact ⟨_, _, .stay hs, hnone⟩
    · exact ⟨_, _, .goto hs _ _, hone rfl⟩
  unfold receive
  split
  · exact hhello
  · exact hhello
  · split_ifs
    · exact ⟨_, _, .goto_nil hs _, hnone⟩
    · exact hunsupported
  · exact ⟨_, _, .goto_nil hs _, hnone⟩
  · unfold receiveQuery
    split
    · exact ⟨_, _, .goto hs _ _, hone rfl⟩
    · exact ⟨_, _, .goto_nil hs _, hnone⟩
  · split_ifs
    · exact ⟨_, _, .stay hs, hnone⟩
    · unfold receiveRequest
      split
      · exact ⟨_, _, .goto hs _ _, hone rfl⟩
      · split_ifs
        · exact ⟨_, _, .goto hs _ _, hone rfl⟩
        · exact ⟨_, _, .goto_nil hs _, hnone⟩
  · exact hunsupported

/-- **A section of a thread** is local, and its frames are addressed to its own session or to the
worker of its dispatch. -/
theorem local_proceed (hs : c.sessions[index]? = some session)
    (h : c.proceed sha codec index session = some c') : ∃ place frames,
      Local c c' index place frames ∧ ∀ sent ∈ frames, Addressed index session.activity sent := by
  have hnone : ∀ sent ∈ ([] : List SentFrame), Addressed index session.activity sent :=
    List.forall_mem_nil _
  have hone {sent : SentFrame} (h : sent.session = index) :
      ∀ s : SentFrame, s ∈ [sent] → Addressed index session.activity s :=
    List.forall_mem_singleton.mpr (Or.inl h)
  unfold proceed at h
  split at h
  -- the handshake
  · dsimp only at h
    split_ifs at h <;> obtain rfl := Option.some.inj h
    · exact ⟨_, _, .goto_nil hs _, hnone⟩
    · refine ⟨_, _, .goto hs _ _, hone ?_⟩
      unfold refuseHandshake
      split_ifs <;> rfl
  · obtain rfl := Option.some.inj h
    exact ⟨_, _, .of_modify (g := fun _ => (.reading, true)) hs (map_modify _ _ fun _ => rfl) rfl,
      hone rfl⟩
  -- the publication
  · obtain rfl := Option.some.inj h
    exact ⟨_, _, .goto_nil hs _, hnone⟩
  · obtain rfl := Option.some.inj h
    exact ⟨_, _, .of_modify hs (places_goto _) (List.append_nil _).symm, hnone⟩
  · split at h <;> obtain rfl := Option.some.inj h
    · exact ⟨_, _, .goto_nil hs _, hnone⟩
    · exact ⟨_, _, .goto_nil hs _, hnone⟩
  · obtain rfl := Option.some.inj h
    exact ⟨_, _, .of_modify hs (places_goto _) (List.append_nil _).symm, hnone⟩
  · obtain rfl := Option.some.inj h
    exact ⟨_, _, .of_modify hs (places_goto _) (List.append_nil _).symm, hnone⟩
  · obtain rfl := Option.some.inj h
    exact ⟨_, _, .goto hs _ _, hone rfl⟩
  -- the client
  · obtain rfl := Option.some.inj h
    exact ⟨_, _, .goto hs _ _, hone rfl⟩
  · obtain rfl := Option.some.inj h
    exact ⟨_, _, .goto hs _ _, hone rfl⟩
  · next epoch request payload _ =>
    obtain rfl := Option.some.inj h
    obtain ⟨d, -, activity, -, hlocal⟩ := Local.dispatch hs epoch request payload
    exact ⟨_, _, hlocal, hnone⟩
  · next d heq =>
    obtain ⟨worker, hworker, rfl⟩ := Option.map_eq_some_iff.mp h
    exact ⟨_, _, .goto hs _ _, List.forall_mem_singleton.mpr (Or.inr ⟨d, heq, hworker⟩)⟩
  · obtain rfl := Option.some.inj h
    exact ⟨_, _, .of_modify hs (places_goto _) (List.append_nil _).symm, hnone⟩
  · next d _ =>
    obtain rfl := Option.some.inj h
    refine ⟨_, _, .collect hs d, hone ?_⟩
    unfold replyFrame
    split_ifs <;> rfl
  all_goals cases h

end Threads

end Coordinator

end PathPlanner
