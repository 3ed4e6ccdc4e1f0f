import PathPlanner.Coordinator.State
import PathPlanner.Library.Run

/-!
# Runs of a coordinator

Each session has a thread that reads frames and handles them, one section after the other; the
sections of all threads and of the administrative calls interleave in any order.

## Main definitions

* `Coordinator.receive`, `Coordinator.proceed`: what the thread of a session does next
* `Coordinator.step`: one section
* `Coordinator.Change`: what a section changes

## Main results

* `Coordinator.change_of_step`: every section is such a change
-/

namespace PathPlanner

open Run

/-- A section of a thread, or a step of its surroundings. -/
inductive CoordinatorAction
  /-- A connection is accepted. -/
  | connect
  /-- A frame arrives; `answers` is the dispatch that a publication was computed for. -/
  | receive (session : ℕ) (frame : WireFrame) (answers : Option ℕ)
  /-- The thread of a session runs its next section. -/
  | proceed (session : ℕ)
  /-- A frame cannot be relayed. -/
  | sendFails (session : ℕ)
  /-- The loop of a session ends. -/
  | finish (session : ℕ)
  | release (session : ℕ)
  | fenceWorker (boot : WorkerBootId)
  | advanceEpoch (epoch : FabricEpoch)
  | publishSnapshot (snapshot : Option FabricSnapshot) (epoch : FabricEpoch)
  /-- An administrative call runs what follows its section. -/
  | finishCall (index : ℕ)
  /-- A call to the runtime of the coordinator. -/
  | runtime (op : RuntimeOperation)

namespace Coordinator

variable (sha : List UInt8 → Sha256Digest) (codec : PayloadCodec) (c : Coordinator)

/-! ## Frames -/

/-- `HandleHandshake`, up to its first section. -/
def receiveHello (index : ℕ) (session : Session) (frame : WireFrame) : Coordinator :=
  match codec.decodeHello frame.payload with
  | .error (status, detail) =>
    (c.goto index (afterRefusal session)).send [errorFrame index c.sendEpoch frame.request status
      .malformedRequest (diagnosticForWireStatus status) detail]
  | .ok hello =>
    if hello.boot ≠ frame.workerBoot then
      (c.goto index (afterRefusal session)).send [errorFrame index c.sendEpoch frame.request
        .malformed .malformedRequest .workerBootFenced
        "handshake boot identity does not match the frame worker identity"]
    else c.goto index (.greeting frame hello c.captureHandshake)

/-- The case of a query in `HandleClientFrame`, up to the publication sequence. -/
def receiveQuery (index : ℕ) (frame : WireFrame) : Coordinator :=
  match codec.decodeQuery frame.payload with
  | .error (status, detail) =>
    (c.goto index .reading).send [errorFrame index c.sendEpoch frame.request status
      .malformedRequest (diagnosticForWireStatus status) detail]
  | .ok query => c.goto index (.answering c.sendEpoch frame query (c.classifyQuery query))

/-- The case of a request in `HandleClientFrame`, up to the choice of a worker. -/
def receiveRequest (index : ℕ) (frame : WireFrame) : Coordinator :=
  match codec.decodeRequest c.limits frame.payload with
  | .error (status, detail) =>
    (c.goto index .reading).send [errorFrame index c.sendEpoch frame.request status
      .malformedRequest (diagnosticForWireStatus status) detail]
  | .ok request =>
    if request.id ≠ frame.request then
      (c.goto index .reading).send [errorFrame index c.sendEpoch frame.request .requestMismatch
        .malformedRequest .protocolMalformedFrame
        "frame request identity does not match the decoded request"]
    else c.goto index (.requesting c.sendEpoch request.id frame.payload)

/-- A frame that the session of a worker ignores, and that a client gets an error for. -/
def receiveUnsupported (index : ℕ) (session : Session) (frame : WireFrame) : Coordinator :=
  if session.workerRole then c
  else
    (c.goto index .reading).send [errorFrame index c.sendEpoch frame.request .unsupported
      .unsupported .unsupportedRequest "unsupported message for a client session"]

/-- The body of `SessionLoop`, up to the first section of the handler. -/
def receive (index : ℕ) (session : Session) (frame : WireFrame) (answers : Option ℕ) :
    Coordinator :=
  match frame.type with
  | .hello | .registerWorker => c.receiveHello codec index session frame
  | .planResult =>
    if session.workerRole then
      c.goto index (.publishing ⟨frame, answers, c.registeredSnapshot frame.workerBoot⟩)
    else c.receiveUnsupported index session frame
  | .snapshotRequest => c.goto index (.describing c.sendEpoch frame)
  | .validateCurrentness => c.receiveQuery codec index frame
  | .planRequest =>
    if session.workerRole then c else c.receiveRequest codec index frame
  | _ => c.receiveUnsupported index session frame

/-! ## Threads -/

/-- The next section of the thread of a session. -/
def proceed (index : ℕ) (session : Session) : Option Coordinator :=
  match session.activity with
  | .greeting frame hello capture =>
    let (acceptance, detail) := c.checkHandshake hello capture
    if acceptance = .ok then some (c.goto index (.greeted frame hello capture))
    else
      some ((c.goto index (afterRefusal session)).send
        [refuseHandshake index frame hello capture acceptance detail])
  | .greeted frame hello capture =>
    some ((c.register index hello capture).send [acceptHandshake index frame hello capture])
  | .publishing publication =>
    let (status, detail) := c.validatePublication publication.frame.workerBoot
      publication.frame.coordinatorEpoch publication.snapshot
    some (c.goto index (.validated publication status detail))
  | .validated publication status detail => some (c.complete index publication status detail)
  | .accepted requestPayload payload =>
    match c.acceptedPlan sha codec requestPayload payload with
    | some plan => some (c.goto index (.retaining plan))
    | none => some (c.goto index .reading)
  | .retaining plan =>
    let (retained, runtime) := c.runtime.retain plan
    some ({ c with runtime }.goto index (if retained then .recording plan.id else .reading))
  | .recording plan => some ({ c with retainedIds := c.retainedIds ++ [plan] }.goto index .reading)
  | .refusing frame status detail =>
    some ((c.goto index .reading).send [fenceFrame index frame.workerBoot c.sendEpoch status
      (diagnosticForWireStatus status) detail])
  | .answering epoch frame query classified =>
    some ((c.goto index .reading).send [{
      session := index
      coordinatorEpoch := epoch
      request := frame.request
      message := .currentnessResult (c.answerOf query classified) }])
  | .describing epoch frame =>
    some ((c.goto index .reading).send [{
      session := index
      coordinatorEpoch := epoch
      request := frame.request
      message := .snapshotResponse
        { snapshot := c.currentSnapshotId, generations := c.currentGenerations } }])
  | .requesting epoch request payload => some (c.dispatch index epoch request payload)
  | .relaying d =>
    d.worker.map fun worker => (c.goto index (.waiting d)).send [relayFrame d worker]
  | .unwritable d => some (c.markUnwritable index d)
  | .waiting d => some (c.collect index d)
  | .reading | .leaving | .closing | .closed => none

/-- A connection: the session is refused when there are too many. -/
def connect : Coordinator :=
  if c.limits.maxSessions.toNat ≤ c.sessionCount then c
  else { c with sessions := c.sessions ++ [{}], sessionCount := c.sessionCount + 1 }

/-- The end of the loop of a session. -/
def finish (index : ℕ) : Coordinator :=
  { c with
    sessions := c.sessions.modify index fun s => { s with finished := true, activity := .closing } }

/-- One section. -/
def step : CoordinatorAction → Option Coordinator
  | .connect => some c.connect
  | .receive index frame answers =>
    match c.sessions[index]? with
    | some session =>
      match session.activity with
      | .reading => some (c.receive codec index session frame answers)
      | _ => none
    | none => none
  | .proceed index => c.sessions[index]?.bind (c.proceed sha codec index)
  | .sendFails index =>
    match c.sessions[index]? with
    | some session =>
      match session.activity with
      | .relaying d => some (c.goto index (.unwritable d))
      | _ => none
    | none => none
  | .finish index =>
    match c.sessions[index]? with
    | some session =>
      match session.activity with
      | .reading | .leaving => some (c.finish index)
      | _ => none
    | none => none
  | .release index =>
    match c.sessions[index]? with
    | some session =>
      match session.activity with
      | .closing => some (c.release index session)
      | _ => none
    | none => none
  | .fenceWorker boot => some (c.fenceWorker boot).2
  | .advanceEpoch epoch =>
    match c.advanceEpoch epoch with
    | .ok c' => some c'
    | .error _ => some c
  | .publishSnapshot snapshot epoch => some (c.publishSnapshot snapshot epoch)
  | .finishCall index =>
    c.calls[index]?.map ({ c with calls := c.calls.eraseIdx index }.finishCall)
  | .runtime op => some { c with runtime := c.runtime.perform op }

end Coordinator

/-! ## Changes -/

/-- The dispatch that a thread has begun and not yet collected. -/
def SessionActivity.dispatch? : SessionActivity → Option Dispatch
  | .relaying d | .unwritable d | .waiting d => some d
  | _ => none

/-- The publication that a thread handles, before it is completed. -/
def SessionActivity.publication? : SessionActivity → Option Publication
  | .publishing publication => some publication
  | .validated publication _ _ => some publication
  | _ => none

/-- The place of a thread with neither a dispatch nor a publication, in a session that is live. -/
structure SessionActivity.IsQuiet (activity : SessionActivity) : Prop where
  dispatch : activity.dispatch? = none
  publication : activity.publication? = none
  live : activity ≠ .closed

namespace Coordinator

/-- What a section changes. -/
inductive Change (sha : List UInt8 → Sha256Digest) (codec : PayloadCodec) (c : Coordinator) :
    CoordinatorAction → Coordinator → Prop
  | stay (action : CoordinatorAction) : Change sha codec c action c
  | connect : Change sha codec c .connect
      { c with sessions := c.sessions ++ [{}], sessionCount := c.sessionCount + 1 }
  | quiet {action : CoordinatorAction} {index : ℕ} {session : Session}
      (hs : c.sessions[index]? = some session) (hquiet : session.activity.IsQuiet)
      (activity : SessionActivity) (hquiet' : activity.IsQuiet) (frames : List SentFrame) :
      Change sha codec c action ((c.goto index activity).send frames)
  | publishing {index : ℕ} {session : Session} (hs : c.sessions[index]? = some session)
      (hreading : session.activity = .reading) (frame : WireFrame) (answers : Option ℕ) :
      Change sha codec c (.receive index frame answers)
        (c.goto index (.publishing ⟨frame, answers, c.registeredSnapshot frame.workerBoot⟩))
  | validated {index : ℕ} {session : Session} (hs : c.sessions[index]? = some session)
      {publication : Publication} (hactivity : session.activity = .publishing publication)
      {status : WireStatus} {detail : String}
      (hvalidate : c.validatePublication publication.frame.workerBoot
        publication.frame.coordinatorEpoch publication.snapshot = (status, detail)) :
      Change sha codec c (.proceed index) (c.goto index (.validated publication status detail))
  | complete {index : ℕ} {session : Session} (hs : c.sessions[index]? = some session)
      {publication : Publication} {status : WireStatus} {detail : String}
      (hactivity : session.activity = .validated publication status detail) :
      Change sha codec c (.proceed index) (c.complete index publication status detail)
  | register {index : ℕ} {session : Session} (hs : c.sessions[index]? = some session)
      {frame : WireFrame} {hello : HelloPayload} {capture : HandshakeCapture}
      (hactivity : session.activity = .greeted frame hello capture) :
      Change sha codec c (.proceed index)
        ((c.register index hello capture).send [acceptHandshake index frame hello capture])
  | retain {index : ℕ} {session : Session} (hs : c.sessions[index]? = some session)
      {plan : PathPlan} (hactivity : session.activity = .retaining plan)
      (activity : SessionActivity) (hquiet : activity.IsQuiet) :
      Change sha codec c (.proceed index)
        ({ c with runtime := c.runtime.perform (.retain plan) }.goto index activity)
  | record {index : ℕ} {session : Session} (hs : c.sessions[index]? = some session)
      {plan : PathPlanId} (hactivity : session.activity = .recording plan) :
      Change sha codec c (.proceed index)
        ({ c with retainedIds := c.retainedIds ++ [plan] }.goto index .reading)
  | dispatch {index : ℕ} {session : Session} (hs : c.sessions[index]? = some session)
      {epoch : CoordinatorEpoch} {request : PlanningRequestId} {payload : List UInt8}
      (hactivity : session.activity = .requesting epoch request payload) :
      Change sha codec c (.proceed index) (c.dispatch index epoch request payload)
  | relay {index : ℕ} {session : Session} (hs : c.sessions[index]? = some session) {d : Dispatch}
      (hactivity : session.activity = .relaying d) {worker : ℕ} (hworker : d.worker = some worker) :
      Change sha codec c (.proceed index)
        ((c.goto index (.waiting d)).send [relayFrame d worker])
  | sendFails {index : ℕ} {session : Session} (hs : c.sessions[index]? = some session)
      {d : Dispatch} (hactivity : session.activity = .relaying d) :
      Change sha codec c (.sendFails index) (c.goto index (.unwritable d))
  | markUnwritable {index : ℕ} {session : Session} (hs : c.sessions[index]? = some session)
      {d : Dispatch} (hactivity : session.activity = .unwritable d) :
      Change sha codec c (.proceed index) (c.markUnwritable index d)
  | collect {index : ℕ} {session : Session} (hs : c.sessions[index]? = some session)
      {d : Dispatch} (hactivity : session.activity = .waiting d) :
      Change sha codec c (.proceed index) (c.collect index d)
  | finish {index : ℕ} {session : Session} (hs : c.sessions[index]? = some session)
      (hquiet : session.activity.IsQuiet) : Change sha codec c (.finish index) (c.finish index)
  | release {index : ℕ} {session : Session} (hs : c.sessions[index]? = some session)
      (hactivity : session.activity = .closing) :
      Change sha codec c (.release index) (c.release index session)
  | fenceWorker (boot : WorkerBootId) {registration : WorkerRegistration}
      (hregistered : c.workers.lookup boot = some registration) (calls : List CallRest) :
      Change sha codec c (.fenceWorker boot)
        { c with
          workers := c.workers.insert boot { registration with fenced := true }
          fencedBoots := insert boot c.fencedBoots
          calls := calls }
  | advanceEpoch {epoch : FabricEpoch} (h : c.epoch < epoch) (calls : List CallRest) :
      Change sha codec c (.advanceEpoch epoch)
        { c with
          epoch := epoch
          fencedBoots := c.fencedBoots ∪ c.workerBoots
          workers := ∅
          calls := calls }
  | publishSnapshot (snapshot : Option FabricSnapshot) (epoch : FabricEpoch) :
      Change sha codec c (.publishSnapshot snapshot epoch) (c.publishSnapshot snapshot epoch)
  | advanceRuntime {index : ℕ} {epoch : FabricEpoch} {notices : List SentFrame}
      (hcall : c.calls[index]? = some (.advanceRuntime epoch notices)) (calls : List CallRest) :
      Change sha codec c (.finishCall index)
        ({ c with
          calls := calls
          runtime := c.runtime.perform (.advanceEpoch epoch true) }.send notices)
  | publishRuntime {index : ℕ} {snapshot : Option FabricSnapshot}
      (hcall : c.calls[index]? = some (.publishRuntime snapshot)) (calls : List CallRest) :
      Change sha codec c (.finishCall index)
        { c with calls := calls, runtime := c.runtime.perform (.publishSnapshot snapshot) }
  | notifyFence (index : ℕ) (calls : List CallRest) (frames : List SentFrame) :
      Change sha codec c (.finishCall index) ({ c with calls := calls }.send frames)
  | runtime (op : RuntimeOperation) :
      Change sha codec c (.runtime op) { c with runtime := c.runtime.perform op }

variable {sha : List UInt8 → Sha256Digest} {codec : PayloadCodec} {c c' : Coordinator}
  {action : CoordinatorAction}

@[simp] theorem send_nil : c.send [] = c := by
  unfold send
  rw [List.append_nil]

/-- The thread of a session goes from one quiet place to another. -/
theorem Change.goto {index : ℕ} {session : Session} (hs : c.sessions[index]? = some session)
    (hquiet : session.activity.IsQuiet) {activity : SessionActivity} (hquiet' : activity.IsQuiet) :
    Change sha codec c action (c.goto index activity) := by
  have h : Change sha codec c action ((c.goto index activity).send []) :=
    .quiet hs hquiet activity hquiet' []
  rwa [send_nil] at h

theorem isQuiet_reading : SessionActivity.IsQuiet .reading := ⟨rfl, rfl, nofun⟩

theorem isQuiet_afterRefusal (session : Session) : (afterRefusal session).IsQuiet := by
  unfold afterRefusal
  split_ifs <;> exact ⟨rfl, rfl, nofun⟩

section Receive

variable {index : ℕ} {session : Session} {frame : WireFrame} {answers : Option ℕ}

theorem change_receiveHello (hs : c.sessions[index]? = some session)
    (hquiet : session.activity.IsQuiet) :
    Change sha codec c action (c.receiveHello codec index session frame) := by
  unfold receiveHello
  split
  · exact .quiet hs hquiet _ (isQuiet_afterRefusal session) _
  · split_ifs
    · exact .quiet hs hquiet _ (isQuiet_afterRefusal session) _
    · exact .goto hs hquiet ⟨rfl, rfl, nofun⟩

theorem change_receiveQuery (hs : c.sessions[index]? = some session)
    (hquiet : session.activity.IsQuiet) :
    Change sha codec c action (c.receiveQuery codec index frame) := by
  unfold receiveQuery
  split
  · exact .quiet hs hquiet _ isQuiet_reading _
  · exact .goto hs hquiet ⟨rfl, rfl, nofun⟩

theorem change_receiveRequest (hs : c.sessions[index]? = some session)
    (hquiet : session.activity.IsQuiet) :
    Change sha codec c action (c.receiveRequest codec index frame) := by
  unfold receiveRequest
  split
  · exact .quiet hs hquiet _ isQuiet_reading _
  · split_ifs
    · exact .quiet hs hquiet _ isQuiet_reading _
    · exact .goto hs hquiet ⟨rfl, rfl, nofun⟩

theorem change_receiveUnsupported (hs : c.sessions[index]? = some session)
    (hquiet : session.activity.IsQuiet) :
    Change sha codec c action (c.receiveUnsupported index session frame) := by
  unfold receiveUnsupported
  split_ifs
  · exact .stay _
  · exact .quiet hs hquiet _ isQuiet_reading _

theorem change_receive (hs : c.sessions[index]? = some session)
    (hreading : session.activity = .reading) :
    Change sha codec c (.receive index frame answers)
      (c.receive codec index session frame answers) := by
  have hquiet : session.activity.IsQuiet := hreading ▸ isQuiet_reading
  unfold receive
  split
  · exact change_receiveHello hs hquiet
  · exact change_receiveHello hs hquiet
  · split_ifs
    · exact .publishing hs hreading frame answers
    · exact change_receiveUnsupported hs hquiet
  · exact .goto hs hquiet ⟨rfl, rfl, nofun⟩
  · exact change_receiveQuery hs hquiet
  · split_ifs
    · exact .stay _
    · exact change_receiveRequest hs hquiet
  · exact change_receiveUnsupported hs hquiet

end Receive

theorem change_proceed {index : ℕ} {session : Session} (hs : c.sessions[index]? = some session)
    (h : c.proceed sha codec index session = some c') : Change sha codec c (.proceed index) c' := by
  have hquiet (hd : session.activity.dispatch? = none)
      (hp : session.activity.publication? = none) (hl : session.activity ≠ .closed) :
      session.activity.IsQuiet := ⟨hd, hp, hl⟩
  unfold proceed at h
  split at h
  all_goals rename_i heq; rw [heq] at hquiet
  -- the handshake
  · dsimp only at h
    split_ifs at h <;> obtain rfl := Option.some.inj h
    · exact .goto hs (heq ▸ hquiet rfl rfl nofun) ⟨rfl, rfl, nofun⟩
    · exact .quiet hs (heq ▸ hquiet rfl rfl nofun) _ (isQuiet_afterRefusal session) _
  · obtain rfl := Option.some.inj h
    exact .register hs heq
  -- the publication
  · obtain rfl := Option.some.inj h
    exact .validated hs heq rfl
  · obtain rfl := Option.some.inj h
    exact .complete hs heq
  · split at h <;> obtain rfl := Option.some.inj h
    · exact .goto hs (heq ▸ hquiet rfl rfl nofun) ⟨rfl, rfl, nofun⟩
    · exact .goto hs (heq ▸ hquiet rfl rfl nofun) isQuiet_reading
  · obtain rfl := Option.some.inj h
    apply Change.retain hs heq
    split_ifs <;> exact ⟨rfl, rfl, nofun⟩
  · obtain rfl := Option.some.inj h
    exact .record hs heq
  · obtain rfl := Option.some.inj h
    exact .quiet hs (heq ▸ hquiet rfl rfl nofun) _ isQuiet_reading _
  -- the client
  · obtain rfl := Option.some.inj h
    exact .quiet hs (heq ▸ hquiet rfl rfl nofun) _ isQuiet_reading _
  · obtain rfl := Option.some.inj h
    exact .quiet hs (heq ▸ hquiet rfl rfl nofun) _ isQuiet_reading _
  · obtain rfl := Option.some.inj h
    exact .dispatch hs heq
  · obtain ⟨worker, hworker, rfl⟩ := Option.map_eq_some_iff.mp h
    exact .relay hs heq hworker
  · obtain rfl := Option.some.inj h
    exact .markUnwritable hs heq
  · obtain rfl := Option.some.inj h
    exact .collect hs heq
  all_goals cases h

theorem change_fenceWorker (boot : WorkerBootId) :
    Change sha codec c (.fenceWorker boot) (c.fenceWorker boot).2 := by
  unfold fenceWorker
  cases hregistered : c.workers.lookup boot with
  | none => exact .stay _
  | some registration =>
    dsimp only
    split
    · exact .fenceWorker boot hregistered _
    · exact .fenceWorker boot hregistered _

theorem change_finishCall {index : ℕ} {call : CallRest} (hcall : c.calls[index]? = some call) :
    Change sha codec c (.finishCall index)
      ({ c with calls := c.calls.eraseIdx index }.finishCall call) := by
  cases call with
  | advanceRuntime epoch notices => exact .advanceRuntime hcall _
  | publishRuntime snapshot => exact .publishRuntime hcall _
  | notifyFence session boot => exact .notifyFence index _ _

/-- **Every section** is a change. -/
theorem change_of_step (h : c.step sha codec action = some c') : Change sha codec c action c' := by
  cases action with
  | connect =>
    obtain rfl := Option.some.inj h
    unfold connect
    split_ifs
    · exact .stay _
    · exact .connect
  | receive index frame answers =>
    unfold step at h
    dsimp only at h
    split at h
    · next session hs =>
      split at h
      · next hreading =>
        obtain rfl := Option.some.inj h
        exact change_receive hs hreading
      · cases h
    · cases h
  | proceed index =>
    obtain ⟨session, hs, h⟩ := Option.bind_eq_some_iff.mp h
    exact change_proceed hs h
  | sendFails index =>
    unfold step at h
    dsimp only at h
    split at h
    · next session hs =>
      split at h
      · next d hactivity =>
        obtain rfl := Option.some.inj h
        exact .sendFails hs hactivity
      · cases h
    · cases h
  | finish index =>
    unfold step at h
    dsimp only at h
    split at h
    · next session hs =>
      split at h
      · next hactivity =>
        obtain rfl := Option.some.inj h
        exact .finish hs (hactivity ▸ ⟨rfl, rfl, nofun⟩)
      · next hactivity =>
        obtain rfl := Option.some.inj h
        exact .finish hs (hactivity ▸ ⟨rfl, rfl, nofun⟩)
      · cases h
    · cases h
  | release index =>
    unfold step at h
    dsimp only at h
    split at h
    · next session hs =>
      split at h
      · next hactivity =>
        obtain rfl := Option.some.inj h
        exact .release hs hactivity
      · cases h
    · cases h
  | fenceWorker boot =>
    obtain rfl := Option.some.inj h
    exact change_fenceWorker boot
  | advanceEpoch epoch =>
    unfold step advanceEpoch at h
    dsimp only at h
    by_cases hle : epoch ≤ c.epoch
    · rw [if_pos hle] at h
      obtain rfl := Option.some.inj h
      exact .stay _
    · rw [if_neg hle] at h
      obtain rfl := Option.some.inj h
      exact .advanceEpoch (not_le.mp hle) _
  | publishSnapshot snapshot epoch =>
    obtain rfl := Option.some.inj h
    exact .publishSnapshot snapshot epoch
  | finishCall index =>
    obtain ⟨call, hcall, rfl⟩ := Option.map_eq_some_iff.mp h
    exact change_finishCall hcall
  | runtime op =>
    obtain rfl := Option.some.inj h
    exact .runtime op

end Coordinator

end PathPlanner
