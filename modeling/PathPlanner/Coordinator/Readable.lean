import PathPlanner.Coordinator.Notices
import PathPlanner.Coordinator.Worker

/-!
# Which control payloads are readable

The payload decoders refuse nil identities, and the frame decoder does not: a frame may carry no
request identity, and a side may hold no snapshot. A coordinator and a worker fill the identities of
their replies from what they hold, so some replies cannot be read by their receiver.

## Main definitions

* `Coordinator.CarriesIdentities`, `Worker.CarriesIdentities`: the condition on a step
* `Coordinator.NamesPeers`, `Worker.NamesPeers`: every identity that a reply is filled from is there

## Main results

* `Coordinator.NamesPeers.step`, `Worker.NamesPeers.step`: it is kept by the steps that meet the
  condition
* `controlPayloads_readable`: **in runs whose steps meet the condition**, the receiver reads every
  control payload that fits
-/

namespace PathPlanner

open Run SortedList

/-- The control payload of a message. -/
def CoordinatorMessage.control? : CoordinatorMessage → Option ControlPayload
  | .planRequest _ | .planResult _ => none
  | .planError payload => some (.planError payload)
  | .fenceNotice payload => some (.fenceNotice payload)
  | .snapshotResponse payload => some (.snapshotResponse payload)
  | .currentnessResult payload => some (.currentnessResult payload)

/-- The control payload of a message of a worker. -/
def WorkerMessage.control? : WorkerMessage → Option ControlPayload
  | .hello payload => some (.hello payload)
  | .planResult _ => none
  | .planError payload => some (.planError payload)
  | .snapshotResponse payload => some (.snapshotResponse payload)

/-- The control payload of a frame has its identities. -/
def SentFrame.IsNamed (frame : SentFrame) : Prop :=
  ∀ payload ∈ frame.message.control?, payload.HasIdentities

/-- The control payload of a frame of a worker has its identities. -/
def WorkerFrame.IsNamed (frame : WorkerFrame) : Prop :=
  ∀ payload ∈ frame.message.control?, payload.HasIdentities

/-- What a thread holds has the identities that its reply is filled from. -/
def SessionActivity.IsNamed : SessionActivity → Prop
  | .greeting _ hello _ => hello.boot.isValid = true
  | .greeted _ hello capture => hello.boot.isValid = true ∧ capture.snapshot.isValid = true
  | .answering _ _ query _ => query.plan.isValid = true
  | .requesting _ request _ => request.isValid = true
  | .relaying d | .unwritable d | .waiting d => d.request.isValid = true
  | _ => True

/-- What is left of a call has the identities that its notices are filled from. -/
def CallRest.IsNamed : CallRest → Prop
  | .advanceRuntime _ notices => ∀ frame ∈ notices, frame.IsNamed
  | .publishRuntime _ => True
  | .notifyFence _ boot => boot.isValid = true

theorem SentFrame.isNamed_of_control? {frame : SentFrame} {payload : ControlPayload}
    (h : frame.message.control? = some payload) (hnamed : payload.HasIdentities) :
    frame.IsNamed := by
  intro other hother
  rw [h] at hother
  obtain rfl := Option.some.inj hother
  exact hnamed

namespace Coordinator

variable {sha : List UInt8 → Sha256Digest} {c c' : Coordinator} {action : CoordinatorAction}
  {index : ℕ}

/-! ## The condition -/

/-- The session refuses the frame: it answers with an error that echoes the frame. -/
def refuses (sha : List UInt8 → Sha256Digest) (c : Coordinator) (session : Session)
    (frame : WireFrame) : Bool :=
  match frame.type with
  | .hello | .registerWorker =>
    match (wireCodec sha).decodeHello frame.payload with
    | .error _ => true
    | .ok hello => hello.boot ≠ frame.workerBoot
  | .planResult => !session.workerRole
  | .snapshotRequest => false
  | .validateCurrentness =>
    match (wireCodec sha).decodeQuery frame.payload with
    | .error _ => true
    | .ok _ => false
  | .planRequest => !session.workerRole &&
    match (wireCodec sha).decodeRequest c.limits frame.payload with
    | .error _ => true
    | .ok request => request.id ≠ frame.request
  | _ => !session.workerRole

/-- The next section of a thread finds the identity that it replies with: the request that a refused
handshake echoes, the snapshot that it describes, or the worker that it refuses. -/
def findsIdentity (c : Coordinator) : SessionActivity → Bool
  | .greeting frame hello capture =>
    (c.checkHandshake hello capture).1 ≠ .snapshotMismatch || frame.request.isValid
  | .describing _ _ => c.currentSnapshotId.isValid
  | .refusing frame _ _ => frame.workerBoot.isValid
  | _ => true

/-- **The condition on a step**: a frame that is refused carries a request identity, a section finds
the identity that it replies with, and an advance finds no more worker sessions than registrations. -/
def CarriesIdentities (sha : List UInt8 → Sha256Digest) (c : Coordinator) :
    CoordinatorAction → Prop
  | .receive index frame _ => ∀ session ∈ c.sessions[index]?,
      refuses sha c session frame = true → frame.request.isValid = true
  | .proceed index => ∀ session ∈ c.sessions[index]?, c.findsIdentity session.activity = true
  | .advanceEpoch epoch => c.epoch < epoch →
      c.sessions.countP (·.workerRole) ≤ c.workers.keys.length
  | _ => True

/-- Every identity that a reply is filled from is there. -/
structure NamesPeers (c : Coordinator) : Prop where
  workers : ∀ boot ∈ c.workers, boot.isValid = true
  activities : ∀ activity ∈ c.activities, activity.IsNamed
  calls : ∀ call ∈ c.calls, call.IsNamed
  sent : ∀ frame ∈ c.sent, frame.IsNamed

/-- What holds of the parts before a step, and of the parts that it adds, holds after it. -/
theorem NamesPeers.of_parts (h : c.NamesPeers)
    (hworkers : ∀ boot ∈ c'.workers, boot ∈ c.workers ∨ boot.isValid = true)
    (hactivities : ∀ activity ∈ c'.activities, activity ∈ c.activities ∨ activity.IsNamed)
    (hcalls : ∀ call ∈ c'.calls, call ∈ c.calls ∨ call.IsNamed)
    (hsent : ∀ frame ∈ c'.sent, frame ∈ c.sent ∨ frame.IsNamed) : c'.NamesPeers where
  workers boot hboot := (hworkers boot hboot).elim (h.workers boot) fun hnew => hnew
  activities a ha := (hactivities a ha).elim (h.activities a) fun hnew => hnew
  calls call hcall := (hcalls call hcall).elim (h.calls call) fun hnew => hnew
  sent frame hframe := (hsent frame hframe).elim (h.sent frame) fun hnew => hnew

theorem activity_mem {session : Session} (hs : c.sessions[index]? = some session) :
    session.activity ∈ c.activities :=
  List.mem_map_of_mem (List.mem_of_getElem? hs)

/-- The activities after the thread of a session has moved. -/
theorem mem_activities_modify {l : List SessionActivity} {activity other : SessionActivity}
    (h : other ∈ l.modify index fun _ => activity) (hnamed : activity.IsNamed) :
    other ∈ l ∨ other.IsNamed := by
  rcases mem_modify h with hmem | ⟨_, _, rfl⟩
  · exact Or.inl hmem
  · exact Or.inr hnamed

/-- The coordinator after a thread has moved on and has sent frames. -/
theorem NamesPeers.move (h : c.NamesPeers) {activity : SessionActivity} {frames : List SentFrame}
    (hactivity : activity.IsNamed) (hframes : ∀ frame ∈ frames, frame.IsNamed) :
    ((c.goto index activity).send frames).NamesPeers := by
  refine h.of_parts (fun _ => Or.inl) (fun other hother => ?_) (fun _ => Or.inl)
    fun frame hframe => ?_
  · change other ∈ (c.goto index activity).activities at hother
    rw [activities_goto] at hother
    exact mem_activities_modify hother hactivity
  · change frame ∈ c.sent ++ frames at hframe
    rcases List.mem_append.mp hframe with hmem | hmem
    · exact Or.inl hmem
    · exact Or.inr (hframes frame hmem)

theorem NamesPeers.goto (h : c.NamesPeers) {activity : SessionActivity}
    (hactivity : activity.IsNamed) : (c.goto index activity).NamesPeers := by
  have hnone : ∀ frame ∈ ([] : List SentFrame), frame.IsNamed := by
    intro frame hframe
    cases hframe
  have hmove : ((c.goto index activity).send []).NamesPeers := h.move hactivity hnone
  rwa [send_nil] at hmove

theorem isNamed_errorFrame {epoch : CoordinatorEpoch} {request : PlanningRequestId}
    (h : request.isValid = true) (status : WireStatus) (planStatus : PlanStatus)
    (code : DiagnosticCode) (detail : String) :
    ∀ frame ∈ [errorFrame index epoch request status planStatus code detail], frame.IsNamed := by
  intro frame hframe
  obtain rfl := List.mem_singleton.mp hframe
  exact SentFrame.isNamed_of_control? rfl h

theorem isNamed_fenceFrame {epoch : CoordinatorEpoch} {boot : WorkerBootId}
    (h : boot.isValid = true) (status : WireStatus) (code : DiagnosticCode) (detail : String) :
    (fenceFrame index boot epoch status code detail).IsNamed :=
  SentFrame.isNamed_of_control? rfl h

theorem isNamed_afterRefusal (session : Session) : (afterRefusal session).IsNamed := by
  unfold afterRefusal
  split_ifs <;> trivial

/-! ## Frames -/

theorem NamesPeers.receive (h : c.NamesPeers) {session : Session} {frame : WireFrame}
    {answers : Option ℕ}
    (hcarries : refuses sha c session frame = true → frame.request.isValid = true) :
    (c.receive (wireCodec sha) index session frame answers).NamesPeers := by
  have hreceiveUnsupported (hrefuses : refuses sha c session frame = !session.workerRole) :
      (c.receiveUnsupported index session frame).NamesPeers := by
    unfold receiveUnsupported
    by_cases hrole : session.workerRole = true
    · rw [if_pos hrole]
      exact h
    · rw [if_neg hrole]
      refine h.move trivial (isNamed_errorFrame (hcarries ?_) _ _ _ _)
      rw [hrefuses, Bool.eq_false_of_not_eq_true hrole]
      rfl
  have hreceiveHello (htype : frame.type = .hello ∨ frame.type = .registerWorker) :
      (c.receiveHello (wireCodec sha) index session frame).NamesPeers := by
    have hrefuses : refuses sha c session frame =
        match (wireCodec sha).decodeHello frame.payload with
        | .error _ => true
        | .ok hello => decide (hello.boot ≠ frame.workerBoot) := by
      unfold refuses
      rcases htype with htype | htype <;> rw [htype]
    rw [hrefuses] at hcarries
    unfold receiveHello
    split
    · next heq =>
      rw [heq] at hcarries
      exact h.move (isNamed_afterRefusal session) (isNamed_errorFrame (hcarries rfl) _ _ _ _)
    · next hello heq =>
      rw [heq] at hcarries
      split_ifs with hboot
      · exact h.move (isNamed_afterRefusal session)
          (isNamed_errorFrame (hcarries (decide_eq_true hboot)) _ _ _ _)
      · exact h.goto (boot_isValid_of_decodeHello heq)
  unfold Coordinator.receive
  split
  · next htype => exact hreceiveHello (Or.inl htype)
  · next htype => exact hreceiveHello (Or.inr htype)
  · next htype =>
    split_ifs
    · exact h.goto trivial
    · exact hreceiveUnsupported (by unfold refuses; rw [htype])
  · exact h.goto trivial
  · next htype =>
    have hrefuses : refuses sha c session frame =
        match (wireCodec sha).decodeQuery frame.payload with
        | .error _ => true
        | .ok _ => false := by
      unfold refuses
      rw [htype]
    rw [hrefuses] at hcarries
    unfold receiveQuery
    split
    · next heq =>
      rw [heq] at hcarries
      exact h.move trivial (isNamed_errorFrame (hcarries rfl) _ _ _ _)
    · next query heq => exact h.goto (plan_isValid_of_decodeQuery heq)
  · next htype =>
    have hrefuses : refuses sha c session frame = (!session.workerRole &&
        match (wireCodec sha).decodeRequest c.limits frame.payload with
        | .error _ => true
        | .ok request => decide (request.id ≠ frame.request)) := by
      unfold refuses
      rw [htype]
    rw [hrefuses] at hcarries
    split_ifs with hrole
    · exact h
    · rw [Bool.eq_false_of_not_eq_true hrole] at hcarries
      unfold receiveRequest
      split
      · next heq =>
        rw [heq] at hcarries
        exact h.move trivial (isNamed_errorFrame (hcarries rfl) _ _ _ _)
      · next request heq =>
        rw [heq] at hcarries
        split_ifs with hid
        · exact h.move trivial
            (isNamed_errorFrame (hcarries (decide_eq_true hid)) _ _ _ _)
        · exact h.goto (id_isValid_of_decodeRequest heq)
  · next hhello hregister hresult hsnapshot hquery hrequest =>
    refine hreceiveUnsupported ?_
    unfold refuses
    split
    · next htype => exact absurd htype hhello
    · next htype => exact absurd htype hregister
    · rfl
    · next htype => exact absurd htype hsnapshot
    · next htype => exact absurd htype hquery
    · next htype => exact absurd htype hrequest
    · rfl

/-! ## Threads -/

/-- The thread of a session has moved, and neither the registry nor what is sent has changed. -/
theorem NamesPeers.of_activities (h : c.NamesPeers) {activity : SessionActivity}
    (hworkers : c'.workers = c.workers) (hcalls : c'.calls = c.calls) (hsent : c'.sent = c.sent)
    (hactivities : c'.activities = c.activities.modify index fun _ => activity)
    (hnamed : activity.IsNamed) : c'.NamesPeers := by
  refine h.of_parts (fun boot hboot => Or.inl (hworkers ▸ hboot)) (fun other hother => ?_)
    (fun call hcall => Or.inl (hcalls ▸ hcall)) fun frame hframe => Or.inl (hsent ▸ hframe)
  rw [hactivities] at hother
  exact mem_activities_modify hother hnamed

theorem snapshot_isValid_of_checkHandshake {hello : HelloPayload} {capture : HandshakeCapture}
    (h : (c.checkHandshake hello capture).1 = .ok) : capture.snapshot.isValid = true := by
  unfold checkHandshake at h
  split_ifs at h with hfenced hepoch hsnapshot
  by_contra hinvalid
  refine hsnapshot (Bool.or_eq_true_iff.mpr (Or.inl ?_))
  rw [Bool.eq_false_of_not_eq_true hinvalid]
  rfl

theorem mem_countPublication {publication : WorkerBootId} {status : WireStatus}
    {boot : WorkerBootId} (h : boot ∈ c.countPublication publication status) :
    boot ∈ c.workers := by
  unfold countPublication at h
  split at h
  · exact h
  · next hlookup =>
    rcases (AList.mem_insert _).mp h with rfl | hmem
    · exact AList.lookup_isSome.mp (by rw [hlookup]; rfl)
    · exact hmem

theorem isNamed_of_dispatch? {activity : SessionActivity} {d : Dispatch}
    (h : activity.dispatch? = some d) (hrequest : d.request.isValid = true) :
    activity.IsNamed := by
  cases activity <;> first | trivial | cases h
  all_goals exact hrequest

theorem plan_answerOf (query : CurrentnessQueryPayload) (classified : Currentness) :
    (c.answerOf query classified).plan = query.plan := by
  unfold answerOf
  split_ifs <;> rfl

theorem isNamed_replyFrame {d : Dispatch} (h : d.request.isValid = true) (outcome : Outcome) :
    (replyFrame index d outcome).IsNamed := by
  unfold replyFrame
  split_ifs
  · intro payload hpayload
    cases hpayload
  · exact SentFrame.isNamed_of_control? rfl h

theorem NamesPeers.proceed (h : c.NamesPeers) {session : Session}
    (hs : c.sessions[index]? = some session)
    (hfinds : c.findsIdentity session.activity = true)
    (hstep : c.proceed sha (wireCodec sha) index session = some c') : c'.NamesPeers := by
  have hnamed := h.activities _ (activity_mem hs)
  have hsingle {frame : SentFrame} (hframe : frame.IsNamed) : ∀ f ∈ [frame], f.IsNamed := by
    intro f hf
    obtain rfl := List.mem_singleton.mp hf
    exact hframe
  unfold Coordinator.proceed at hstep
  split at hstep
  all_goals rename_i heq; rw [heq] at hnamed hfinds
  -- the handshake
  · dsimp only at hstep
    split_ifs at hstep with haccept <;> obtain rfl := Option.some.inj hstep
    · exact h.goto ⟨hnamed, snapshot_isValid_of_checkHandshake haccept⟩
    · refine h.move (isNamed_afterRefusal session) (hsingle ?_)
      unfold refuseHandshake
      split_ifs with hmismatch
      · refine SentFrame.isNamed_of_control? rfl ?_
        exact (Bool.or_eq_true_iff.mp hfinds).resolve_left fun hne =>
          of_decide_eq_true hne hmismatch
      · exact isNamed_fenceFrame hnamed _ _ _
  · next frame hello capture =>
    obtain rfl := Option.some.inj hstep
    refine h.of_parts (fun boot hboot => ?_) (fun other hother => ?_) (fun _ => Or.inl)
      fun frame hframe => ?_
    · rcases (AList.mem_insert _).mp hboot with rfl | hmem
      · exact Or.inr hnamed.1
      · exact Or.inl hmem
    · change other ∈ (c.register index hello capture).activities at hother
      rw [activities_register] at hother
      exact mem_activities_modify hother trivial
    · rcases List.mem_append.mp hframe with hmem | hmem
      · exact Or.inl hmem
      · refine Or.inr (hsingle ?_ frame hmem)
        exact SentFrame.isNamed_of_control? rfl hnamed.2
  -- the publication
  · obtain rfl := Option.some.inj hstep
    exact h.goto trivial
  · obtain rfl := Option.some.inj hstep
    refine h.of_parts (fun boot hboot => Or.inl (mem_countPublication hboot))
      (fun other hother => ?_) (fun _ => Or.inl) fun _ => Or.inl
    change other ∈ (c.goto index (c.afterCompletion _ _ _)).activities at hother
    rw [activities_goto] at hother
    refine mem_activities_modify hother ?_
    unfold afterCompletion
    split_ifs
    · split <;> trivial
    · trivial
  · split at hstep <;> obtain rfl := Option.some.inj hstep
    · exact h.goto trivial
    · exact h.goto trivial
  · obtain rfl := Option.some.inj hstep
    refine h.of_activities rfl rfl rfl (activities_goto _) ?_
    split_ifs <;> trivial
  · obtain rfl := Option.some.inj hstep
    exact h.of_activities rfl rfl rfl (activities_goto .reading) trivial
  · obtain rfl := Option.some.inj hstep
    exact h.move trivial (hsingle (isNamed_fenceFrame hfinds _ _ _))
  -- the client
  · obtain rfl := Option.some.inj hstep
    refine h.move trivial (hsingle (SentFrame.isNamed_of_control? rfl ?_))
    change (c.answerOf _ _).plan.isValid = true
    rw [plan_answerOf]
    exact hnamed
  · obtain rfl := Option.some.inj hstep
    exact h.move trivial (hsingle (SentFrame.isNamed_of_control? rfl hfinds))
  · obtain rfl := Option.some.inj hstep
    obtain ⟨activity, d, hactivities, hd, hrequest, -⟩ := activities_dispatch c _ _ _ _
    refine h.of_activities (dispatch_frame _ _ _ _ _).1 ?_ ?_ hactivities
      (isNamed_of_dispatch? hd (hrequest ▸ hnamed))
    · unfold Coordinator.dispatch
      split <;> rfl
    · unfold Coordinator.dispatch
      split <;> rfl
  · obtain ⟨worker, -, rfl⟩ := Option.map_eq_some_iff.mp hstep
    refine h.move hnamed (hsingle fun payload hpayload => ?_)
    cases hpayload
  · obtain rfl := Option.some.inj hstep
    exact h.of_activities rfl rfl rfl (activities_goto _) hnamed
  · obtain rfl := Option.some.inj hstep
    refine h.of_parts (fun _ => Or.inl) (fun other hother => ?_) (fun _ => Or.inl)
      fun frame hframe => ?_
    · rw [activities_collect] at hother
      exact mem_activities_modify hother trivial
    · rcases List.mem_append.mp hframe with hmem | hmem
      · exact Or.inl hmem
      · exact Or.inr (hsingle (isNamed_replyFrame hnamed _) frame hmem)
  all_goals cases hstep

/-! ## Administrative calls -/

/-- No notice of an advance is without a boot identity when there are as many registrations as
worker sessions. -/
theorem isNamed_advanceNotices (hkeyed : c.IsKeyed) (h : ∀ boot ∈ c.workers, boot.isValid = true)
    (hcount : c.sessions.countP (·.workerRole) ≤ c.workers.keys.length) (epoch : FabricEpoch) :
    ∀ frame ∈ c.advanceNotices epoch, frame.IsNamed := by
  intro frame hframe
  unfold advanceNotices at hframe
  dsimp only at hframe
  rw [map_boot_workers hkeyed] at hframe
  obtain ⟨position, hposition, rfl⟩ := List.mem_mapIdx.mp hframe
  refine isNamed_fenceFrame (h _ ?_) _ _ _
  have hsockets : (c.sessions.zipIdx.filter (·.1.workerRole)).length =
      c.sessions.countP (·.workerRole) := by
    rw [← List.countP_eq_length_filter]
    conv_rhs => rw [← List.zipIdx_map_fst 0 c.sessions, List.countP_map]
    rfl
  have hlt : position < (sortBy id c.workers.keys).length := by
    rw [length_sortBy]
    omega
  rw [List.getD_eq_getElem?_getD, List.getElem?_eq_getElem hlt, Option.getD_some, AList.mem_keys,
    ← mem_sortBy id]
  exact List.getElem_mem hlt

theorem NamesPeers.fenceWorker (h : c.NamesPeers) (boot : WorkerBootId) :
    (c.fenceWorker boot).2.NamesPeers := by
  unfold Coordinator.fenceWorker
  cases hregistered : c.workers.lookup boot with
  | none => exact h
  | some registration =>
    have hboot : boot ∈ c.workers := AList.lookup_isSome.mp (by rw [hregistered]; rfl)
    have hworkers {other : WorkerBootId}
        (hother : other ∈ c.workers.insert boot { registration with fenced := true }) :
        other ∈ c.workers := by
      rcases (AList.mem_insert _).mp hother with rfl | hmem
      · exact hboot
      · exact hmem
    dsimp only
    split
    · exact h.of_parts (fun _ hother => Or.inl (hworkers hother)) (fun _ => Or.inl)
        (fun _ => Or.inl) fun _ => Or.inl
    · refine h.of_parts (fun _ hother => Or.inl (hworkers hother)) (fun _ => Or.inl)
        (fun call hcall => ?_) fun _ => Or.inl
      rcases List.mem_append.mp hcall with hmem | hmem
      · exact Or.inl hmem
      · obtain rfl := List.mem_singleton.mp hmem
        exact Or.inr (h.workers boot hboot)

theorem NamesPeers.finishCall (h : c.NamesPeers) {call : CallRest}
    (hcall : c.calls[index]? = some call) :
    ({ c with calls := c.calls.eraseIdx index }.finishCall call).NamesPeers := by
  have hnamed := h.calls call (List.mem_of_getElem? hcall)
  have hcalls {other : CallRest} (hother : other ∈ c.calls.eraseIdx index) : other ∈ c.calls :=
    List.mem_of_mem_eraseIdx hother
  have hsend {frames : List SentFrame} (hframes : ∀ frame ∈ frames, frame.IsNamed)
      {frame : SentFrame} (hframe : frame ∈ c.sent ++ frames) :
      frame ∈ c.sent ∨ frame.IsNamed := by
    rcases List.mem_append.mp hframe with hmem | hmem
    · exact Or.inl hmem
    · exact Or.inr (hframes frame hmem)
  cases call with
  | advanceRuntime epoch notices =>
    exact h.of_parts (fun _ => Or.inl) (fun _ => Or.inl) (fun _ hother => Or.inl (hcalls hother))
      fun _ => hsend hnamed
  | publishRuntime snapshot =>
    exact h.of_parts (fun _ => Or.inl) (fun _ => Or.inl) (fun _ hother => Or.inl (hcalls hother))
      fun _ => Or.inl
  | notifyFence session boot =>
    refine h.of_parts (fun _ => Or.inl) (fun _ => Or.inl) (fun _ hother => Or.inl (hcalls hother))
      fun _ => hsend fun frame hframe => ?_
    obtain rfl := List.mem_singleton.mp hframe
    exact isNamed_fenceFrame hnamed _ _ _

/-! ## Runs -/

/-- **Every identity that a reply is filled from is there** after a section that meets the
condition. -/
theorem NamesPeers.step (h : c.NamesPeers) (hkeyed : c.IsKeyed)
    (hcarries : c.CarriesIdentities sha action)
    (hstep : c.step sha (wireCodec sha) action = some c') : c'.NamesPeers := by
  cases action with
  | connect =>
    obtain rfl := Option.some.inj hstep
    unfold connect
    split_ifs
    · exact h
    · refine h.of_parts (fun _ => Or.inl) (fun other hother => ?_) (fun _ => Or.inl)
        fun _ => Or.inl
      change other ∈ (c.sessions ++ [({} : Session)]).map Session.activity at hother
      rw [List.map_append] at hother
      rcases List.mem_append.mp hother with hmem | hmem
      · exact Or.inl hmem
      · obtain rfl := List.mem_singleton.mp hmem
        exact Or.inr trivial
  | receive index frame answers =>
    unfold Coordinator.step at hstep
    dsimp only at hstep
    split at hstep
    · next session hs =>
      split at hstep
      · obtain rfl := Option.some.inj hstep
        exact h.receive (hcarries session hs)
      · cases hstep
    · cases hstep
  | proceed index =>
    obtain ⟨session, hs, hproceed⟩ := Option.bind_eq_some_iff.mp hstep
    exact h.proceed hs (hcarries session hs) hproceed
  | sendFails index =>
    unfold Coordinator.step at hstep
    dsimp only at hstep
    split at hstep
    · next session hs =>
      split at hstep
      · next d hactivity =>
        obtain rfl := Option.some.inj hstep
        have hnamed := h.activities _ (activity_mem hs)
        rw [hactivity] at hnamed
        exact h.goto hnamed
      · cases hstep
    · cases hstep
  | finish index =>
    have hfinish : (c.finish index).NamesPeers :=
      h.of_activities rfl rfl rfl activities_finish trivial
    unfold Coordinator.step at hstep
    dsimp only at hstep
    split at hstep
    · split at hstep
      · obtain rfl := Option.some.inj hstep
        exact hfinish
      · obtain rfl := Option.some.inj hstep
        exact hfinish
      · cases hstep
    · cases hstep
  | release index =>
    unfold Coordinator.step at hstep
    dsimp only at hstep
    split at hstep
    · next session hs =>
      split at hstep
      · obtain rfl := Option.some.inj hstep
        refine h.of_parts (fun boot hboot => Or.inl ?_) (fun other hother => ?_)
          (fun _ => Or.inl) fun _ => Or.inl
        · change boot ∈ (releasedBoot session).elim c.workers c.workers.erase at hboot
          cases hreleased : releasedBoot session with
          | none =>
            rw [hreleased] at hboot
            exact hboot
          | some released =>
            rw [hreleased] at hboot
            exact (AList.mem_erase.mp hboot).2
        · rw [activities_release] at hother
          exact mem_activities_modify hother trivial
      · cases hstep
    · cases hstep
  | fenceWorker boot =>
    obtain rfl := Option.some.inj hstep
    exact h.fenceWorker boot
  | advanceEpoch epoch =>
    unfold Coordinator.step Coordinator.advanceEpoch at hstep
    dsimp only at hstep
    by_cases hle : epoch ≤ c.epoch
    · rw [if_pos hle] at hstep
      obtain rfl := Option.some.inj hstep
      exact h
    · rw [if_neg hle] at hstep
      obtain rfl := Option.some.inj hstep
      refine h.of_parts (fun boot hboot => ?_) (fun _ => Or.inl) (fun call hcall => ?_)
        fun _ => Or.inl
      · exact absurd hboot (AList.notMem_empty boot)
      · rcases List.mem_append.mp hcall with hmem | hmem
        · exact Or.inl hmem
        · obtain rfl := List.mem_singleton.mp hmem
          exact Or.inr (isNamed_advanceNotices hkeyed h.workers (hcarries (not_le.mp hle)) epoch)
  | publishSnapshot snapshot epoch =>
    obtain rfl := Option.some.inj hstep
    refine h.of_parts (fun _ => Or.inl) (fun _ => Or.inl) (fun call hcall => ?_) fun _ => Or.inl
    rcases List.mem_append.mp hcall with hmem | hmem
    · exact Or.inl hmem
    · obtain rfl := List.mem_singleton.mp hmem
      exact Or.inr trivial
  | finishCall index =>
    obtain ⟨call, hcall, rfl⟩ := Option.map_eq_some_iff.mp hstep
    exact h.finishCall hcall
  | runtime op =>
    obtain rfl := Option.some.inj hstep
    exact h.of_parts (fun _ => Or.inl) (fun _ => Or.inl) (fun _ => Or.inl) fun _ => Or.inl

theorem recoverStore_sent (sha : List UInt8 → Sha256Digest) (c : Coordinator)
    (records : List StoredPlanRecord) :
    (c.recoverStore sha records).sent = c.sent ∧ (c.recoverStore sha records).calls = c.calls := by
  unfold recoverStore
  induction records generalizing c with
  | nil => exact ⟨rfl, rfl⟩
  | cons record records ih =>
    rw [List.foldl_cons]
    refine (ih _).imp (·.trans ?_) (·.trans ?_)
    all_goals
      dsimp only
      split_ifs <;> rfl

/-- A run whose steps meet the condition sends no control payload without its identities. -/
theorem isNamed_of_run {limits : ResourceLimits} {snapshot : Option FabricSnapshot}
    {initialEpoch : FabricEpoch} {records : List StoredPlanRecord}
    {actions : List CoordinatorAction} {reached : Coordinator}
    (hcarries : StepsMeet (step sha (wireCodec sha)) (CarriesIdentities sha)
      ((new limits snapshot initialEpoch).recoverStore sha records) actions)
    (hrun : run (step sha (wireCodec sha))
      ((new limits snapshot initialEpoch).recoverStore sha records) actions = some reached) :
    ∀ frame ∈ reached.sent, frame.IsNamed := by
  have hstart := @isStarted_recoverStore sha limits snapshot initialEpoch records
  obtain ⟨hsent, hcalls⟩ := recoverStore_sent sha (new limits snapshot initialEpoch) records
  generalize (new limits snapshot initialEpoch).recoverStore sha records = start at *
  have hnamed : start.NamesPeers := by
    refine ⟨fun boot hboot => ?_, fun activity hactivity => ?_, fun call hcall => ?_,
      fun frame hframe => ?_⟩
    · rw [hstart.workers] at hboot
      exact absurd hboot (AList.notMem_empty boot)
    · rw [activities, hstart.sessions] at hactivity
      cases hactivity
    · rw [hcalls] at hcall
      cases hcall
    · rw [hsent] at hframe
      cases hframe
  exact (StepsMeet.invariant (I := fun t : Coordinator => t.IsKeyed ∧ t.NamesPeers)
    (fun _ _ _ hmeets hstep h => ⟨h.1.step hstep, h.2.step h.1 hmeets hstep⟩)
    hcarries hrun ⟨hstart.isKeyed, hnamed⟩).2.sent

end Coordinator

/-! ## Workers -/

theorem isValid_entropyBytes {Tag : Type} (bytes : Vector UInt8 8) :
    (⟨entropyBytes bytes⟩ : FixedId Tag 8).isValid = true := by
  unfold entropyBytes FixedId.isValid
  split_ifs with hany
  · exact hany
  · rw [List.any_eq_true]
    refine ⟨1, ?_, by decide⟩
    rw [Vector.mem_toList_iff]
    exact Vector.mem_set (by decide)

namespace Worker

variable {sha : List UInt8 → Sha256Digest} {w w' : Worker} {action : Worker.Action}

/-- The reply is an error. -/
def isError : WorkerMessage → Bool
  | .planError _ => true
  | _ => false

/-- The worker holds a snapshot with an identity. -/
def holdsSnapshot (w : Worker) : Bool := w.describeSnapshot.snapshot.isValid

/-- A frame that is served finds the identity that the reply is filled from. -/
def servesNamed (sha : List UInt8 → Sha256Digest) (w : Worker) (frame : WireFrame) : Bool :=
  match frame.type with
  | .planRequest => !isError (w.answerRequest sha frame).1 || frame.request.isValid
  | .snapshotRequest => w.holdsSnapshot
  | .fenceNotice | .shutdownWorker => true
  | _ => frame.request.isValid

/-- **The condition on a step**: a worker that registers or describes its snapshot holds one, and a
frame that it answers with an error carries a request identity. -/
def CarriesIdentities (sha : List UInt8 → Sha256Digest) (w : Worker) : Worker.Action → Prop
  | .greet => w.holdsSnapshot = true
  | .receive frame => w.phase = .serving → w.servesNamed sha frame = true
  | .lose => True

/-- Every identity that a reply is filled from is there. -/
structure NamesPeers (w : Worker) : Prop where
  publisher : w.config.publisher.isValid = true
  boot : w.config.boot.isValid = true
  sent : ∀ frame ∈ w.sent, frame.IsNamed

theorem namesPeers_new (config : WorkerConfig) (bootEntropy publisherEntropy : Vector UInt8 8) :
    (Worker.new config bootEntropy publisherEntropy).NamesPeers := by
  refine ⟨?_, ?_, fun frame hframe => by cases hframe⟩
  · unfold Worker.new
    dsimp only
    split_ifs with hvalid
    · exact hvalid
    · exact isValid_entropyBytes publisherEntropy
  · unfold Worker.new
    dsimp only
    split_ifs with hvalid
    · exact hvalid
    · exact isValid_entropyBytes bootEntropy

theorem NamesPeers.send (h : w.NamesPeers) {request : PlanningRequestId} {message : WorkerMessage}
    (hmessage : ∀ payload ∈ message.control?, payload.HasIdentities) :
    (w.send request message).NamesPeers := by
  refine ⟨h.publisher, h.boot, fun frame hframe => ?_⟩
  rcases List.mem_append.mp hframe with hmem | hmem
  · exact h.sent frame hmem
  · obtain rfl := List.mem_singleton.mp hmem
    exact hmessage

/-- A reply that is an error echoes the request identity of the frame. -/
theorem hasIdentities_answerRequest {frame : WireFrame}
    (h : (!isError (w.answerRequest sha frame).1 || frame.request.isValid) = true) :
    ∀ payload ∈ (w.answerRequest sha frame).1.control?, payload.HasIdentities := by
  revert h
  unfold answerRequest
  split
  · intro h payload hpayload
    obtain rfl := Option.some.inj hpayload
    exact h
  · dsimp only
    split_ifs
    · intro h payload hpayload
      obtain rfl := Option.some.inj hpayload
      exact h
    · intro h payload hpayload
      cases hpayload

theorem NamesPeers.serve (h : w.NamesPeers) {frame : WireFrame}
    (hserves : w.servesNamed sha frame = true) : (w.serve sha frame).NamesPeers := by
  have hsingle {payload : ControlPayload} {message : WorkerMessage}
      (hcontrol : message.control? = some payload) (hpayload : payload.HasIdentities) :
      ∀ other ∈ message.control?, other.HasIdentities := by
    intro other hother
    rw [hcontrol] at hother
    obtain rfl := Option.some.inj hother
    exact hpayload
  have hepoch : { w with
      coordinatorEpoch := max w.coordinatorEpoch frame.coordinatorEpoch }.NamesPeers :=
    ⟨h.publisher, h.boot, h.sent⟩
  unfold servesNamed at hserves
  unfold Worker.serve
  dsimp only
  cases htype : frame.type with
  | planRequest =>
    rw [htype] at hserves
    exact NamesPeers.send (w := { w with
        runtime := (w.answerRequest sha frame).2
        plansServed := _
        coordinatorEpoch := max w.coordinatorEpoch frame.coordinatorEpoch })
      ⟨h.publisher, h.boot, h.sent⟩ (hasIdentities_answerRequest hserves)
  | fenceNotice => exact ⟨h.publisher, h.boot, h.sent⟩
  | shutdownWorker => exact ⟨h.publisher, h.boot, h.sent⟩
  | _ =>
    rw [htype] at hserves
    exact hepoch.send (hsingle rfl hserves)

/-- **Every identity that a reply is filled from is there** after a step that meets the
condition. -/
theorem NamesPeers.step (h : w.NamesPeers) (hcarries : w.CarriesIdentities sha action)
    (hstep : w.step sha action = some w') : w'.NamesPeers := by
  cases action with
  | greet =>
    obtain ⟨-, hsome⟩ := Option.ite_none_right_eq_some.mp hstep
    obtain rfl := Option.some.inj hsome
    refine ⟨h.publisher, h.boot, fun frame hframe => ?_⟩
    rcases List.mem_append.mp hframe with hmem | hmem
    · exact h.sent frame hmem
    · obtain rfl := List.mem_singleton.mp hmem
      intro payload hpayload
      obtain rfl := Option.some.inj hpayload
      exact ⟨h.publisher, h.boot, hcarries⟩
  | receive frame =>
    unfold Worker.step at hstep
    dsimp only at hstep
    split at hstep
    · obtain rfl := Option.some.inj hstep
      unfold Worker.register
      split
      · exact ⟨h.publisher, h.boot, h.sent⟩
      · split <;> exact ⟨h.publisher, h.boot, h.sent⟩
      · exact ⟨h.publisher, h.boot, h.sent⟩
    · next hphase =>
      obtain rfl := Option.some.inj hstep
      exact h.serve (hcarries hphase)
    · cases hstep
  | lose =>
    obtain rfl := Option.some.inj hstep
    exact ⟨h.publisher, h.boot, h.sent⟩

/-- A run whose steps meet the condition sends no control payload without its identities. -/
theorem isNamed_of_run {config : WorkerConfig} {bootEntropy publisherEntropy : Vector UInt8 8}
    {actions : List Worker.Action} {reached : Worker}
    (hcarries : StepsMeet (step sha) (CarriesIdentities sha)
      (Worker.new config bootEntropy publisherEntropy) actions)
    (hrun : run (step sha) (Worker.new config bootEntropy publisherEntropy) actions =
      some reached) : ∀ frame ∈ reached.sent, frame.IsNamed :=
  (StepsMeet.invariant (fun _ _ _ hmeets hstep h => NamesPeers.step h hmeets hstep) hcarries hrun
    (namesPeers_new config bootEntropy publisherEntropy)).sent

end Worker

/-! ## The control payloads -/

/-- **Control payloads are readable**: a payload is readable exactly when its identities are there
and it fits, and the coordinator and the workers send no other, in every run whose steps meet the
condition; so whatever they send is readable exactly when it fits. -/
theorem controlPayloads_readable {sha : List UInt8 → Sha256Digest} (receiver : ResourceLimits)
    {limits : ResourceLimits} {snapshot : Option FabricSnapshot} {initialEpoch : FabricEpoch}
    {records : List StoredPlanRecord} {actions : List CoordinatorAction} {coordinator : Coordinator}
    (hcarries : StepsMeet (Coordinator.step sha (wireCodec sha)) (Coordinator.CarriesIdentities sha)
      ((Coordinator.new limits snapshot initialEpoch).recoverStore sha records) actions)
    (hrun : run (Coordinator.step sha (wireCodec sha))
      ((Coordinator.new limits snapshot initialEpoch).recoverStore sha records) actions =
        some coordinator)
    {config : WorkerConfig} {bootEntropy publisherEntropy : Vector UInt8 8}
    {workerActions : List Worker.Action} {worker : Worker}
    (hworkerCarries : StepsMeet (Worker.step sha) (Worker.CarriesIdentities sha)
      (Worker.new config bootEntropy publisherEntropy) workerActions)
    (hworkerRun : run (Worker.step sha) (Worker.new config bootEntropy publisherEntropy)
      workerActions = some worker) :
    (∀ (sender : ResourceLimits) (payload : ControlPayload),
      payload.IsReadable sender receiver ↔
        payload.HasIdentities ∧ payload.Fits sender receiver) ∧
    (∀ frame ∈ coordinator.sent, ∀ payload ∈ frame.message.control?,
      payload.IsReadable limits receiver ↔ payload.Fits limits receiver) ∧
    ∀ frame ∈ worker.sent, ∀ payload ∈ frame.message.control?,
      payload.IsReadable config.limits receiver ↔ payload.Fits config.limits receiver := by
  have hiff (sender : ResourceLimits) (payload : ControlPayload)
      (hpayload : payload.HasIdentities) :
      payload.IsReadable sender receiver ↔ payload.Fits sender receiver :=
    (payload.isReadable_iff sender receiver).trans (and_iff_right hpayload)
  refine ⟨fun sender payload => payload.isReadable_iff sender receiver,
    fun frame hframe payload hpayload => hiff limits payload ?_,
    fun frame hframe payload hpayload => hiff config.limits payload ?_⟩
  · exact Coordinator.isNamed_of_run hcarries hrun frame hframe payload hpayload
  · exact Worker.isNamed_of_run hworkerCarries hworkerRun frame hframe payload hpayload

/-! ## A registration -/

instance (sha : List UInt8 → Sha256Digest) (c : Coordinator) :
    (action : CoordinatorAction) → Decidable (c.CarriesIdentities sha action)
  | .receive index frame _ => inferInstanceAs (Decidable (∀ session ∈ c.sessions[index]?,
      Coordinator.refuses sha c session frame = true → frame.request.isValid = true))
  | .proceed index => inferInstanceAs (Decidable (∀ session ∈ c.sessions[index]?,
      c.findsIdentity session.activity = true))
  | .advanceEpoch epoch => inferInstanceAs (Decidable (c.epoch < epoch →
      c.sessions.countP (·.workerRole) ≤ c.workers.keys.length))
  | .connect => isTrue trivial
  | .sendFails _ => isTrue trivial
  | .finish _ => isTrue trivial
  | .release _ => isTrue trivial
  | .fenceWorker _ => isTrue trivial
  | .publishSnapshot _ _ => isTrue trivial
  | .finishCall _ => isTrue trivial
  | .runtime _ => isTrue trivial

instance (sha : List UInt8 → Sha256Digest) (w : Worker) :
    (action : Worker.Action) → Decidable (w.CarriesIdentities sha action)
  | .greet => inferInstanceAs (Decidable (_ = true))
  | .receive _ => inferInstanceAs (Decidable (_ → _ = true))
  | .lose => isTrue trivial

/-- A worker with a number. -/
def numberedWorker (snapshot : Option FabricSnapshot) (number : UInt8) : WorkerConfig where
  snapshot := snapshot
  publisher := .tagged 0 number
  boot := .tagged 0 number
  limits := {}

/-- The worker as it connects. -/
def connectedWorker (snapshot : Option FabricSnapshot) : Worker :=
  .new (numberedWorker snapshot 1) (.replicate 8 0) (.replicate 8 0)

/-- The frame that it registers with. -/
def registrationFrame (snapshot : Option FabricSnapshot) : WireFrame :=
  WorkerFrame.received {}
    { coordinatorEpoch := (connectedWorker snapshot).helloPayload.coordinatorEpoch
      workerBoot := .tagged 0 1
      message := .hello (connectedWorker snapshot).helloPayload }

/-- A coordinator over one link, in the epoch of its snapshot. -/
def earlyCoordinator : Coordinator :=
  (Coordinator.new {} (some singleLink) (.ofNat 0)).recoverStore constantHash []

/-- The worker registers. -/
def registration : List CoordinatorAction :=
  [.connect, .receive 0 (registrationFrame (some singleLink)) none, .proceed 0, .proceed 0]

/-- The coordinator after the registration. -/
def registeringCoordinator : Coordinator :=
  (run (Coordinator.step constantHash (wireCodec constantHash)) earlyCoordinator registration).get
    (by decide +kernel)

/-- The worker after it has sent its registration. -/
def registeringWorker : Worker := (connectedWorker (some singleLink)).greet

theorem controlPayloads_readable_registration : registeringCoordinator.sent.length = 1 ∧
    (∀ frame ∈ registeringCoordinator.sent, ∀ payload ∈ frame.message.control?,
      payload.IsReadable {} {} ↔ payload.Fits {} {}) ∧
    registeringWorker.sent.length = 1 ∧
    ∀ frame ∈ registeringWorker.sent, ∀ payload ∈ frame.message.control?,
      payload.IsReadable {} {} ↔ payload.Fits {} {} := by
  have h := @controlPayloads_readable constantHash {} {} (some singleLink) (.ofNat 0) []
    registration registeringCoordinator (by decide +kernel) (Option.some_get _).symm
    (numberedWorker (some singleLink) 1) (.replicate 8 0) (.replicate 8 0) [.greet]
    registeringWorker (by decide +kernel) rfl
  exact ⟨by decide +kernel, h.2.1, by decide +kernel, h.2.2⟩

/-- A worker without a snapshot connects. -/
def emptyConnection : List CoordinatorAction :=
  [.connect, .receive 0 (registrationFrame none) none]

/-- The coordinator after it has refused the worker. -/
def refusingCoordinator : Coordinator :=
  (run (Coordinator.step constantHash (wireCodec constantHash)) earlyCoordinator
    emptyConnection).get (by decide +kernel)

/-- A worker without a snapshot registers with a nil snapshot identity, which the coordinator cannot
read; the error that it answers with has a nil request identity, which the worker cannot read. -/
theorem not_controlPayloads_readable_emptyConnection : validateLimits {} = none ∧
    (¬ ∀ frame ∈ (connectedWorker none).greet.sent, ∀ payload ∈ frame.message.control?,
      payload.Fits {} {} → payload.IsReadable {} {}) ∧
    ¬ ∀ coordinator : Coordinator,
      run (Coordinator.step constantHash (wireCodec constantHash)) earlyCoordinator
        emptyConnection = some coordinator →
      ∀ frame ∈ coordinator.sent, ∀ payload ∈ frame.message.control?,
        payload.Fits {} {} → payload.IsReadable {} {} := by
  have hnamed {payload : ControlPayload} (h : payload.Fits {} {} → payload.IsReadable {} {})
      (hfits : payload.Fits {} {}) : payload.HasIdentities :=
    ((payload.isReadable_iff {} {}).mp (h hfits)).1
  refine ⟨by decide, fun h => ?_, fun h => ?_⟩
  · have hworker : ¬ ∀ frame ∈ (connectedWorker none).greet.sent,
        ∀ payload ∈ frame.message.control?, payload.Fits {} {} → payload.HasIdentities := by
      decide +kernel
    exact hworker fun frame hframe payload hpayload => hnamed (h frame hframe payload hpayload)
  · have hcoordinator : ¬ ∀ frame ∈ refusingCoordinator.sent,
        ∀ payload ∈ frame.message.control?, payload.Fits {} {} → payload.HasIdentities := by
      decide +kernel
    exact hcoordinator fun frame hframe payload hpayload =>
      hnamed (h _ (Option.some_get _).symm frame hframe payload hpayload)

end PathPlanner
