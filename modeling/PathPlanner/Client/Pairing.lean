import PathPlanner.Client.Session
import PathPlanner.Runtime.Currentness

/-!
# Pairing of calls and responses

The frame of a call is on its way to the session, or it is handled there, or it is answered, and what
arrives at the client is the beginning of that answer. This holds as long as each call begins when
nothing of an earlier call is outstanding. A client does not see to that.

## Main definitions

* `Stage`: how far the frame of a call and its answer have come
* `ClientSystem.Paired`: the invariant

## Main results

* `Stage.moves`: the stage moves on with the thread of the session
* `conclude_isPaired`: what is made of an answer is paired with it
* `ClientSystem.Paired.step`: the step lemma
* `ClientSystem.returned_paired`: **every response is paired with its call** in runs of such steps
* `ClientSystem.not_returned_paired`: a late answer is taken for the answer to the next query
-/

namespace PathPlanner

open Run

/-! ## The way of a frame -/

section Stage

variable {sha : List UInt8 → Sha256Digest} {limits : ResourceLimits} {frame : WireFrame}
  {activity : SessionActivity} {outbound inbound : List UInt8}

/-- There are no bytes, or they are the beginning of an answer to the frame. -/
def HoldsAnswer (sha : List UInt8 → Sha256Digest) (limits : ResourceLimits) (frame : WireFrame)
    (inbound : List UInt8) : Prop :=
  inbound = [] ∨ ∃ sent : SentFrame, sent.Answers (wireCodec sha) frame ∧
    inbound <+: encodeFrame sha (sent.received limits)

/-- How far a frame and its answer have come: the frame is under way, it is handled, it is answered,
or the session has ended. -/
inductive Stage (sha : List UInt8 → Sha256Digest) (limits : ResourceLimits) (frame : WireFrame) :
    SessionActivity → List UInt8 → List UInt8 → Prop
  | sent {outbound : List UInt8} (h : outbound <+: encodeFrame sha frame) :
      Stage sha limits frame .reading outbound []
  | handled {activity : SessionActivity} (h : activity.Handles (wireCodec sha) frame) :
      Stage sha limits frame activity [] []
  | answered {inbound : List UInt8} (h : HoldsAnswer sha limits frame inbound) :
      Stage sha limits frame .reading [] inbound
  | ended {activity : SessionActivity} {outbound inbound : List UInt8}
      (hended : activity = .closing ∨ activity = .closed)
      (h : HoldsAnswer sha limits frame inbound) : Stage sha limits frame activity outbound inbound

theorem Stage.holdsAnswer (h : Stage sha limits frame activity outbound inbound) :
    HoldsAnswer sha limits frame inbound := by
  cases h with
  | sent => exact Or.inl rfl
  | handled => exact Or.inl rfl
  | answered h => exact h
  | ended _ h => exact h

theorem Stage.activity_cases (h : Stage sha limits frame activity outbound inbound) :
    activity = .reading ∨ activity.Handles (wireCodec sha) frame ∨ activity = .closing ∨
      activity = .closed := by
  cases h with
  | sent => exact Or.inl rfl
  | handled h => exact Or.inr (Or.inl h)
  | answered => exact Or.inl rfl
  | ended hended => exact Or.inr (Or.inr hended)

/-- Only a frame that is handled stands at a place where it is. -/
theorem Stage.eq_nil_of_handles (h : Stage sha limits frame activity outbound inbound)
    (hhandles : activity.Handles (wireCodec sha) frame) : outbound = [] ∧ inbound = [] := by
  cases h with
  | sent => cases hhandles
  | handled => exact ⟨rfl, rfl⟩
  | answered => cases hhandles
  | ended hended => rcases hended with rfl | rfl <;> cases hhandles

/-- **The stage moves on** with the thread of the session. -/
theorem Stage.moves {new : SessionActivity} {frames : List SentFrame}
    (h : Stage sha limits frame activity outbound inbound)
    (hmoves : Coordinator.ClientMoves (wireCodec sha) frame activity new frames) (count : ℕ) :
    Stage sha limits frame new outbound (inbound ++
      (frames.flatMap fun sent => encodeFrame sha (sent.received limits)).take count) := by
  have hnil : inbound ++ (([] : List SentFrame).flatMap fun sent =>
      encodeFrame sha (sent.received limits)).take count = inbound := by
    rw [List.flatMap_nil, List.take_nil, List.append_nil]
  cases hmoves with
  | stay => exact hnil.symm ▸ h
  | handle hold hnew =>
    rw [hnil]
    obtain ⟨rfl, rfl⟩ := h.eq_nil_of_handles hold
    exact .handled hnew
  | @answer hold sent hanswers =>
    obtain ⟨rfl, rfl⟩ := h.eq_nil_of_handles hold
    refine .answered (Or.inr ⟨sent, hanswers, ?_⟩)
    rw [List.nil_append, List.flatMap_singleton]
    exact List.take_prefix _ _
  | close hold hnew =>
    rw [hnil]
    exact .ended hnew h.holdsAnswer

end Stage

/-! ## Responses -/

theorem PlannerClient.isOfClient_frame (client : PlannerClient) (call : ClientCall) :
    (client.frame call).IsOfClient := by
  cases call with
  | snapshotInfo => exact Or.inl rfl
  | submit => exact Or.inr (Or.inl rfl)
  | queryCurrentness => exact Or.inr (Or.inr rfl)

/-- **What is made of an answer** to the frame of the call is paired with it. -/
theorem conclude_isPaired {sha : List UInt8 → Sha256Digest} (limits : ResourceLimits)
    (client : PlannerClient) {sender : PlannerClient} {call : ClientCall} {sent : SentFrame}
    (hanswers : sent.Answers (wireCodec sha) (sender.frame call)) :
    (client.conclude sha call (sent.received limits)).2.limits = client.limits ∧
      ReturnedCall.IsPaired sha client.limits ⟨call, some (sent.received limits),
        (client.conclude sha call (sent.received limits)).1⟩ := by
  cases call with
  | snapshotInfo =>
    change (client.concludeSnapshotInfo (sent.received limits)).2.limits = client.limits ∧ _
    unfold PlannerClient.conclude PlannerClient.concludeSnapshotInfo
    dsimp only
    split_ifs
    · exact ⟨rfl, Or.inl ⟨_, _, rfl⟩⟩
    · split
      · exact ⟨rfl, Or.inl ⟨_, _, rfl⟩⟩
      · exact ⟨client.limits_observe _, Or.inr ⟨_, rfl, trivial⟩⟩
  | submit request =>
    have hlimits := client.limits_observe (sent.received limits).coordinatorEpoch
    refine ⟨hlimits, ?_⟩
    rcases (client.observe (sent.received limits).coordinatorEpoch).concludeSubmit_cases sha
      (sent.received limits) with ⟨status, error, hfailed⟩ | ⟨result, hresult, htype, hdecoded⟩
    · exact Or.inl ⟨status, error, hfailed⟩
    · refine Or.inr ⟨_, rfl, ?_⟩
      rw [hlimits] at hdecoded
      change ClientCall.IsPaired sha client.limits _ _ ((client.observe _).concludeSubmit sha _)
      rw [hresult]
      exact ⟨htype, (sent.request_received limits).trans hanswers.request, hdecoded⟩
  | queryCurrentness plan =>
    refine ⟨rfl, ?_⟩
    rcases client.concludeQuery_cases (sent.received limits) with
      ⟨status, error, hfailed⟩ | ⟨payload, hresult, htype, hdecoded⟩
    · exact Or.inl ⟨status, error, hfailed⟩
    · refine Or.inr ⟨_, rfl, ?_⟩
      change ClientCall.IsPaired sha client.limits _ _ (client.concludeQuery _)
      rw [hresult]
      obtain ⟨answer, hmessage, hpayload⟩ := SentFrame.currentnessResult_of_type htype
      obtain ⟨query, hquery, hplan⟩ := hanswers.plan answer hmessage
      -- the plan goes from the client to the session and back
      rw [sender.payload_frame_queryCurrentness plan] at hquery
      simp only [wireCodec, codecResult_eq_ok_iff] at hquery
      have hasked : query.plan = plan.id := plan_of_decodeQuery hquery
      have hanswered : payload.plan = answer.plan := by
        rw [hpayload] at hdecoded
        exact plan_of_decodeResult hdecoded
      exact ⟨htype, payload, hdecoded, hanswered.trans (hplan.trans hasked), rfl⟩

/-! ## Pairing over runs -/

namespace ClientSystem

variable {sha : List UInt8 → Sha256Digest} {s s' : ClientSystem} {action : ClientAction}

/-- The calls that have returned are paired, and the session and the client are at one frame: that of
the call that waits, if one does. -/
structure Paired (sha : List UInt8 → Sha256Digest) (s : ClientSystem) : Prop where
  targets : s.coordinator.TargetsWorkers
  payloads : s.coordinator.PayloadsFit
  exchange : ∃ (sender : PlannerClient) (call : ClientCall) (activity : SessionActivity)
    (inbound : List UInt8), s.coordinator.places[s.session]? = some (activity, false) ∧
    Stage sha s.coordinator.limits (sender.frame call) activity s.outbound inbound ∧
    ∀ current, s.waiting = some current → current = call ∧ s.inbound = inbound
  returned : ∀ returned ∈ s.returned, returned.IsPaired sha s.client.limits

/-- A call that has failed is paired. -/
theorem isPaired_failed {call : ClientCall} {response : Option WireFrame} {limits : ResourceLimits}
    {result : ClientReturn} (h : ∃ status error, result = .failed status error) :
    ReturnedCall.IsPaired sha limits ⟨call, response, result⟩ := Or.inl h

theorem interrupted_failed (call : ClientCall) (detail : String) :
    ∃ status error, PlannerClient.interrupted call detail = .failed status error := by
  cases call <;> exact ⟨_, _, rfl⟩

/-- A call returns, and what it returns is paired. -/
theorem Paired.returns (h : s.Paired sha) {call : ClientCall} {response : Option WireFrame}
    {result : ClientReturn} (hpaired : ReturnedCall.IsPaired sha s.client.limits
      ⟨call, response, result⟩) : (s.returns call response result).Paired sha where
  targets := h.targets
  payloads := h.payloads
  exchange := by
    obtain ⟨sender, current, activity, inbound, hplace, hstage, -⟩ := h.exchange
    exact ⟨sender, current, activity, inbound, hplace, hstage, fun _ h => nomatch h⟩
  returned := List.forall_mem_append.mpr ⟨h.returned, List.forall_mem_singleton.mpr hpaired⟩

/-- Only the counters of the client and the bytes that it reads change while no call waits. -/
theorem Paired.idle (h : s.Paired sha) {client : PlannerClient}
    (hlimits : client.limits = s.client.limits) (inbound : List UInt8) :
    ({ s with client, inbound, waiting := none } : ClientSystem).Paired sha where
  targets := h.targets
  payloads := h.payloads
  exchange := by
    obtain ⟨sender, call, activity, arrived, hplace, hstage, -⟩ := h.exchange
    exact ⟨sender, call, activity, arrived, hplace, hstage, fun _ h => nomatch h⟩
  returned := by
    rw [hlimits]
    exact h.returned

/-- The stage of a frame that is sent when nothing is outstanding. -/
theorem stage_of_isSettled {limits : ResourceLimits} {frame : WireFrame}
    {activity : SessionActivity} {bytes : List UInt8} (h : s.IsSettled)
    (hplace : s.coordinator.places[s.session]? = some (activity, false))
    (hbytes : bytes <+: encodeFrame sha frame) :
    Stage sha limits frame activity (s.outbound ++ bytes) [] := by
  have hactivity : s.coordinator.activities[s.session]? = some activity := by
    have hmap : s.coordinator.places.map Prod.fst = s.coordinator.activities := List.map_map
    rw [← hmap, List.getElem?_map, hplace]
    rfl
  obtain ⟨-, ⟨houtbound, hreading⟩ | hclosing | hclosed⟩ := h
  · rw [houtbound, Option.some.inj (hactivity.symm.trans hreading)]
    exact .sent hbytes
  · exact .ended (Or.inl (Option.some.inj (hactivity.symm.trans hclosing))) (Or.inl rfl)
  · exact .ended (Or.inr (Option.some.inj (hactivity.symm.trans hclosed))) (Or.inl rfl)

/-- **A call begins** when nothing is outstanding. -/
theorem Paired.begins (h : s.Paired sha) (hsettled : s.IsSettled) (client : PlannerClient)
    (hlimits : client.limits = s.client.limits) (call : ClientCall) {bytes : List UInt8}
    (hbytes : bytes <+: encodeFrame sha (client.frame call)) :
    ({ s with client, waiting := some call, outbound := s.outbound ++ bytes } :
      ClientSystem).Paired sha where
  targets := h.targets
  payloads := h.payloads
  exchange := by
    obtain ⟨-, -, activity, -, hplace, -, -⟩ := h.exchange
    refine ⟨client, call, activity, [], hplace, stage_of_isSettled hsettled hplace hbytes, ?_⟩
    intro current hcurrent
    exact ⟨(Option.some.inj hcurrent).symm, hsettled.1⟩
  returned := by
    rw [hlimits]
    exact h.returned

/-- **A section of the coordinator** moves the stage on. -/
theorem Paired.advance (h : s.Paired sha) {c : Coordinator} {coordinatorAction : CoordinatorAction}
    (hstep : s.coordinator.step sha (wireCodec sha) coordinatorAction = some c)
    (hreads : Coordinator.ReadsFrames coordinatorAction)
    {outbound : List UInt8} {count : ℕ}
    (hexchange : ∀ (sender : PlannerClient) (call : ClientCall) (activity : SessionActivity)
      (inbound : List UInt8), s.coordinator.places[s.session]? = some (activity, false) →
      Stage sha s.coordinator.limits (sender.frame call) activity s.outbound inbound →
      ∃ new, c.places[s.session]? = some (new, false) ∧
        Stage sha s.coordinator.limits (sender.frame call) new outbound
          (inbound ++ (s.written sha c).take count)) :
    (({ s with outbound } : ClientSystem).advance sha c count).Paired sha where
  targets := h.targets.step hstep
  payloads := h.payloads.step hreads hstep
  exchange := by
    obtain ⟨sender, call, activity, inbound, hplace, hstage, hcurrent⟩ := h.exchange
    obtain ⟨new, hnew, hmoved⟩ := hexchange sender call activity inbound hplace hstage
    refine ⟨sender, call, new, inbound ++ (s.written sha c).take count, hnew, ?_,
      fun current hwaiting => ?_⟩
    · have hlimits : c.limits = s.coordinator.limits := Coordinator.limits_of_step hstep
      rw [← hlimits] at hmoved
      exact hmoved
    · obtain ⟨hcall, hinbound⟩ := hcurrent current hwaiting
      exact ⟨hcall, congrArg (· ++ (s.written sha c).take count) hinbound⟩
  returned := h.returned

/-- The bytes of the frames that a section adds. -/
theorem written_eq {c : Coordinator} {frames : List SentFrame}
    (hsent : c.sent = s.coordinator.sent ++ frames) :
    s.written sha c = (frames.filter fun sent => sent.session = s.session).flatMap
      fun sent => encodeFrame sha (sent.received s.coordinator.limits) := by
  unfold written
  rw [hsent, List.drop_left]

/-- **The session reads**: a frame that it rejects ends it, and a frame of the client is handled. -/
theorem Paired.sessionReads (h : s.Paired sha) {count : ℕ}
    (hstep : s.step sha (.sessionReads count) = some s') : s'.Paired sha := by
  unfold step at hstep
  dsimp only at hstep
  split at hstep
  · cases hstep
  · -- the session ends
    obtain ⟨c, hc, rfl⟩ := Option.map_eq_some_iff.mp hstep
    refine h.advance hc trivial fun sender call activity inbound hplace hstage => ?_
    obtain ⟨session, hs, -, hlocal⟩ := Coordinator.local_finish hc
    have hrole : session.workerRole = false := congrArg Prod.snd
      (Option.some.inj ((Coordinator.places_getElem? hs).symm.trans hplace))
    refine ⟨.closing, hrole ▸ hlocal.place, .ended (Or.inl rfl) ?_⟩
    rw [written_eq hlocal.sent, List.filter_nil, List.flatMap_nil, List.take_nil, List.append_nil]
    exact hstage.holdsAnswer
  · -- a frame has arrived
    next frame rest hread =>
    obtain ⟨c, hc, rfl⟩ := Option.map_eq_some_iff.mp hstep
    have hsendable := (eq_append_of_readFrame sha _ hread).1
    refine h.advance hc (hsendable.payload_le.trans_lt (UInt32.toNat_lt _))
      fun sender call activity inbound hplace hstage => ?_
    obtain ⟨session, hs, hreading, rfl⟩ := Coordinator.exists_of_receive hc
    obtain ⟨hactivity, hrole⟩ : session.activity = activity ∧ session.workerRole = false :=
      Prod.mk.inj (Option.some.inj ((Coordinator.places_getElem? hs).symm.trans hplace))
    rw [hreading] at hactivity
    subst hactivity
    generalize s.outbound = outbound at hstage hread
    cases hstage with
    | sent hprefix =>
      -- only the whole frame of the client is read as a frame
      have hwhole := readFrame_of_prefix sha s.coordinator.limits.maxFrameBytes
        (sender.isDescribable_frame call) hprefix
      rw [hread] at hwhole
      obtain ⟨-, hframe⟩ := (hwhole.resolve_left nofun).resolve_left nofun
      obtain ⟨rfl, rfl⟩ := FrameRead.frame.inj hframe
      rcases Coordinator.receive_client hs hrole (sender.isOfClient_frame call) none with
        ⟨activity, hhandles, hlocal⟩ | ⟨sent, hsession, hanswers, hlocal⟩
      · refine ⟨activity, hlocal.place, ?_⟩
        rw [written_eq hlocal.sent, List.filter_nil, List.flatMap_nil, List.take_nil]
        exact .handled hhandles
      · refine ⟨.reading, hlocal.place, .answered (Or.inr ⟨sent, hanswers, ?_⟩)⟩
        rw [written_eq hlocal.sent, List.filter_singleton, hsession, decide_eq_true rfl]
        exact (List.flatMap_singleton ..).symm ▸ List.take_prefix _ _
    | handled hhandles => cases hhandles
    | answered =>
      rw [readFrame_nil] at hread
      cases hread
    | ended hended => rcases hended with hended | hended <;> cases hended

/-- **Another section of the coordinator** moves the thread of the session, if at all, by one section
of its own. -/
theorem Paired.coordinator (h : s.Paired sha) {action : CoordinatorAction} {count : ℕ}
    (hstep : s.step sha (.coordinator action count) = some s') : s'.Paired sha := by
  unfold step at hstep
  dsimp only at hstep
  split_ifs at hstep with hforeign
  obtain ⟨c, hc, rfl⟩ := Option.map_eq_some_iff.mp hstep
  have hreads : Coordinator.ReadsFrames action := by
    cases action with
    | receive index frame answers => exact hforeign.2.trans_lt (UInt32.toNat_lt _)
    | _ => trivial
  refine h.advance hc hreads fun sender call activity inbound hplace hstage => ?_
  have hother : ∀ frame answers, action ≠ .receive s.session frame answers := by
    rintro frame answers rfl
    exact hforeign.1 rfl
  obtain ⟨new, frames, hnew, hsent, hmoves⟩ := Coordinator.clientMoves_of_step h.targets hplace
    h.payloads hstage.activity_cases hother hc
  refine ⟨new, hnew, ?_⟩
  rw [written_eq hsent]
  exact hstage.moves hmoves count

/-- **The client reads**: it finds nothing but the answer to the call that waits. -/
theorem Paired.read (h : s.Paired sha) (hstep : s.step sha .read = some s') : s'.Paired sha := by
  unfold step at hstep
  dsimp only at hstep
  split at hstep
  · cases hstep
  · next call hwaiting =>
    obtain ⟨sender, current, activity, inbound, -, hstage, hcurrent⟩ := h.exchange
    obtain ⟨rfl, hinbound⟩ := hcurrent call hwaiting
    split at hstep
    · cases hstep
    · next detail rest _ =>
      obtain rfl := Option.some.inj hstep
      exact (h.idle rfl rest).returns (isPaired_failed (interrupted_failed call detail))
    · next response rest hread =>
      obtain rfl := Option.some.inj hstep
      rw [hinbound] at hread
      rcases hstage.holdsAnswer with rfl | ⟨sent, hanswers, hprefix⟩
      · rw [readFrame_nil] at hread
        cases hread
      · have hwhole := readFrame_of_prefix sha s.client.limits.maxFrameBytes
          (SentFrame.isDescribable_received hanswers.declarable) hprefix
        rw [hread] at hwhole
        obtain ⟨-, hframe⟩ := (hwhole.resolve_left nofun).resolve_left nofun
        obtain ⟨rfl, rfl⟩ := FrameRead.frame.inj hframe
        obtain ⟨hlimits, hpaired⟩ := conclude_isPaired s.coordinator.limits s.client hanswers
        refine (h.idle hlimits []).returns ?_
        exact hlimits.symm ▸ hpaired

/-- **The step lemma**: calls that begin settled are paired. -/
theorem Paired.step (h : s.Paired sha) (hsettled : s.BeginsSettled action)
    (hstep : s.step sha action = some s') : s'.Paired sha := by
  cases action with
  | call call =>
    unfold ClientSystem.step at hstep
    dsimp only at hstep
    split at hstep
    · cases hstep
    · split_ifs at hstep with hexceeds <;> obtain rfl := Option.some.inj hstep
      · exact h.returns (isPaired_failed ⟨_, _, rfl⟩)
      · exact h.begins (hsettled.resolve_left hexceeds) s.client.advance rfl call
          (List.prefix_refl _)
  | sendFails call count error =>
    unfold ClientSystem.step at hstep
    dsimp only at hstep
    split at hstep
    · cases hstep
    · split_ifs at hstep
      obtain rfl := Option.some.inj hstep
      have hbegins := h.begins hsettled s.client.advance rfl call (List.take_prefix count _)
      exact hbegins.returns (isPaired_failed ⟨_, _, rfl⟩)
  | read => exact h.read hstep
  | interrupt count detail =>
    unfold ClientSystem.step at hstep
    dsimp only at hstep
    split at hstep
    · cases hstep
    · next call _ =>
      split at hstep
      · obtain rfl := Option.some.inj hstep
        exact (h.idle rfl _).returns (isPaired_failed (interrupted_failed call detail))
      · cases hstep
  | sessionReads count => exact h.sessionReads hstep
  | coordinator action count => exact h.coordinator hstep

/-- A client that has connected waits for nothing. -/
theorem IsConnected.paired (h : s.IsConnected sha) : s.Paired sha := by
  obtain ⟨limits, snapshot, initialEpoch, records, actions, c, hrun, hreads, hroom, hcoordinator,
    hsession⟩ := h.accepted
  obtain ⟨-, hsessions, -, -, hpending⟩ :=
    Coordinator.recoverStore_frame (.new limits snapshot initialEpoch) sha records
  obtain ⟨-, hcalls⟩ :=
    Coordinator.recoverStore_sent sha (.new limits snapshot initialEpoch) records
  generalize (Coordinator.new limits snapshot initialEpoch).recoverStore sha records = start at *
  -- the run up to the connection
  have htargets : c.TargetsWorkers :=
    invariant_of_run (fun _ _ _ hstep htargets => htargets.step hstep) hrun
      (.of_empty hsessions hcalls)
  have hpayloads : c.PayloadsFit := by
    have hmeet : StepsMeet (Coordinator.step sha (wireCodec sha))
        (fun _ action => Coordinator.ReadsFrames action) start actions := by
      intro before action after he _ _
      exact hreads action (by rw [he]; exact List.mem_append_cons_self)
    exact hmeet.invariant (fun _ _ _ hreads hstep hfit => hfit.step hreads hstep) hrun
      (.of_empty hsessions hpending)
  -- the connection
  have hconnect : c.step sha (wireCodec sha) .connect = some s.coordinator :=
    congrArg some hcoordinator.symm
  have hplace : s.coordinator.places[s.session]? = some (.reading, false) := by
    rw [hcoordinator, hsession, Coordinator.connect, if_neg (not_le.mpr hroom)]
    unfold Coordinator.places
    rw [List.getElem?_map, List.getElem?_concat_length]
    rfl
  refine ⟨htargets.step hconnect,
    hpayloads.step (show Coordinator.ReadsFrames .connect from trivial) hconnect, ?_, ?_⟩
  · refine ⟨s.client, .snapshotInfo, .reading, [], hplace, ?_, fun current hcurrent => ?_⟩
    · rw [h.outbound]
      exact .answered (Or.inl rfl)
    · rw [h.waiting] at hcurrent
      cases hcurrent
  · rw [h.returned]
    exact List.forall_mem_nil _

/-- **Every response is paired with its call**, whatever the coordinator does and however long the
answers take, in the runs in which each call begins when nothing of an earlier one is outstanding. -/
theorem returned_paired {actions : List ClientAction} (hconnected : s.IsConnected sha)
    (hsettled : StepsMeet (step sha) BeginsSettled s actions)
    (hrun : run (step sha) s actions = some s') :
    ∀ returned ∈ s'.returned, returned.IsPaired sha s'.client.limits :=
  (hsettled.invariant (fun _ _ _ hsettled hstep hpaired => hpaired.step hsettled hstep) hrun
    hconnected.paired).returned

/-! ## A late answer -/

/-- A plan that is asked about. -/
def askedPlan (n : UInt8) : PathPlan where
  id := .tagged 0 n
  request := .tagged 0 n
  evidence := { snapshot := .tagged 0 1 }

/-- A client that has connected to a new coordinator. -/
def newConnection : ClientSystem where
  client := { limits := {} }
  coordinator := (Coordinator.new {} none (.ofNat 1)).connect
  session := 0

theorem isConnected_newConnection : newConnection.IsConnected sha where
  accepted := by
    refine ⟨{}, none, .ofNat 1, [], [], .new {} none (.ofNat 1), rfl, List.forall_mem_nil _, ?_, rfl,
      rfl⟩
    decide
  outbound := rfl
  inbound := rfl
  waiting := rfl
  returned := rfl

/-- A query is answered. -/
def answeredQuery : List ClientAction :=
  [.call (.queryCurrentness (askedPlan 1)), .sessionReads 0, .coordinator (.proceed 0) 200, .read]

theorem beginsSettled_answeredQuery :
    StepsMeet (step sha) BeginsSettled newConnection answeredQuery := by
  refine stepsMeet_cons.mpr ⟨Or.inr ⟨rfl, Or.inl ⟨rfl, rfl⟩⟩, fun _ _ => ?_⟩
  exact stepsMeet_cons.mpr ⟨trivial, fun _ _ => stepsMeet_cons.mpr ⟨trivial, fun _ _ =>
    stepsMeet_cons.mpr ⟨trivial, fun _ _ => stepsMeet_nil⟩⟩⟩

theorem returned_paired_answeredQuery : ∃ s',
    run (step constantHash) newConnection answeredQuery = some s' ∧ s'.returned.length = 1 ∧
      ∀ returned ∈ s'.returned, returned.IsPaired constantHash s'.client.limits := by
  have hsome : (run (step constantHash) newConnection answeredQuery).isSome := by decide +kernel
  have hlength : ((run (step constantHash) newConnection answeredQuery).get hsome).returned.length =
    1 := by decide +kernel +revert
  have hrun := (Option.some_get hsome).symm
  exact ⟨_, hrun, hlength,
    returned_paired isConnected_newConnection beginsSettled_answeredQuery hrun⟩

/-- The first query fails on the receive bound and is answered after that, when the second begins. -/
def lateAnswer : List ClientAction :=
  [.call (.queryCurrentness (askedPlan 1)),
    .interrupt 0 "receive bound of 15000 ms elapsed with an incomplete message", .sessionReads 0,
    .coordinator (.proceed 0) 200, .call (.queryCurrentness (askedPlan 2)), .read]

/-- The frame of the first query. -/
def firstQuery : WireFrame := newConnection.client.advance.frame (.queryCurrentness (askedPlan 1))

/-- The answer to the first query. -/
def firstAnswer : CurrentnessResultPayload where
  plan := (askedPlan 1).id
  currentness := .revalidationRequired

/-- The frame of the answer. -/
def firstReply : SentFrame where
  session := 0
  coordinatorEpoch := .ofNat 1
  request := (askedPlan 1).request
  message := .currentnessResult firstAnswer

theorem decodeQuery_firstQuery : (wireCodec sha).decodeQuery firstQuery.payload =
    .ok (ClientCall.query (askedPlan 1)) := by
  rw [firstQuery, PlannerClient.payload_frame_queryCurrentness]
  simp only [wireCodec, codecResult_eq_ok_iff]
  exact decodeQuery_written_iff.mpr (by decide +kernel)

theorem decode_firstReply : decodeCurrentnessResultBytes {} (firstReply.received {}).payload =
    .ok firstAnswer.bytes :=
  (ControlPayload.isReadable_iff {} {} (.currentnessResult firstAnswer)).mpr (by decide +kernel)

/-- The frame of the first query is read and handled, and the session is at the answer. -/
theorem sessionReads_firstQuery {s : ClientSystem}
    (hcoordinator : s.coordinator = newConnection.coordinator) (hsession : s.session = 0) (houtbound : s.outbound = encodeFrame sha firstQuery) :
    s.step sha (.sessionReads 0) = some { s with
      outbound := []
      coordinator := newConnection.coordinator.goto 0
        (.answering (.ofNat 1) firstQuery (ClientCall.query (askedPlan 1))
          .revalidationRequired) } := by
  have hsendable : firstQuery.IsSendable s.coordinator.limits.maxFrameBytes := by
    rw [hcoordinator]
    exact ⟨by decide, by decide +kernel⟩
  have hreceive : s.coordinator.step sha (wireCodec sha) (.receive s.session firstQuery none) =
      some (newConnection.coordinator.receiveQuery (wireCodec sha) 0 firstQuery) := by
    rw [hcoordinator, hsession]
    rfl
  unfold step
  dsimp only
  rw [houtbound, readFrame_encodeFrame sha _ hsendable]
  dsimp only
  rw [hreceive, Coordinator.receiveQuery, decodeQuery_firstQuery]
  dsimp only
  rw [Option.map_some, advance, written, List.take_zero, List.append_nil]
  rfl

/-- The answer is sent. -/
theorem proceed_firstQuery {s : ClientSystem} (hcoordinator : s.coordinator =
    newConnection.coordinator.goto 0
      (.answering (.ofNat 1) firstQuery (ClientCall.query (askedPlan 1)) .revalidationRequired))
    (hsession : s.session = 0) (hinbound : s.inbound = []) :
    s.step sha (.coordinator (.proceed 0) 200) = some { s with
      coordinator := (newConnection.coordinator.goto 0 .reading).send [firstReply]
      inbound := encodeFrame sha (firstReply.received {}) } := by
  have hproceed : s.coordinator.step sha (wireCodec sha) (.proceed 0) =
      some ((newConnection.coordinator.goto 0 .reading).send [firstReply]) := by
    rw [hcoordinator]
    rfl
  have hlimits : s.coordinator.limits = {} := by
    rw [hcoordinator]
    rfl
  have hsent : ((newConnection.coordinator.goto 0 .reading).send [firstReply]).sent =
      s.coordinator.sent ++ [firstReply] := by
    rw [hcoordinator]
    rfl
  have hwritten : s.written sha ((newConnection.coordinator.goto 0 .reading).send [firstReply]) =
      encodeFrame sha (firstReply.received {}) := by
    rw [written_eq hsent, hsession, hlimits]
    exact List.flatMap_singleton ..
  have hlength : (encodeFrame sha (firstReply.received {})).length ≤ 200 := by
    rw [length_encodeFrame]
    decide +kernel
  unfold step
  dsimp only
  rw [if_pos (show s.IsForeign (.proceed 0) from trivial), hproceed, Option.map_some, advance,
    hwritten, List.take_of_length_le hlength, hinbound, List.nil_append]

/-- The answer is taken for that of the call that waits. -/
theorem read_firstReply {s : ClientSystem} {plan : PathPlan}
    (hwaiting : s.waiting = some (.queryCurrentness plan)) (hlimits : s.client.limits = {})
    (hinbound : s.inbound = encodeFrame sha (firstReply.received {})) :
    s.step sha .read = some ({ s with inbound := [] }.returns (.queryCurrentness plan)
      (some (firstReply.received {})) (.currentness .revalidationRequired)) := by
  have hsendable : (firstReply.received {}).IsSendable s.client.limits.maxFrameBytes := by
    rw [hlimits]
    exact ⟨by decide, by decide +kernel⟩
  have hconclude : s.client.conclude sha (.queryCurrentness plan) (firstReply.received {}) =
      (.currentness .revalidationRequired, s.client) := by
    have htype : (firstReply.received {}).type = .currentnessResult := rfl
    rw [PlannerClient.conclude, PlannerClient.concludeQuery, htype]
    dsimp only
    rw [hlimits, decode_firstReply]
    rfl
  unfold step
  dsimp only
  rw [hwaiting]
  dsimp only
  rw [hinbound, readFrame_encodeFrame sha _ hsendable]
  dsimp only
  rw [hconclude]

/-- The second query has returned true with the answer to the first. -/
def lateConnection (sha : List UInt8 → Sha256Digest) : ClientSystem where
  client := newConnection.client.advance.advance
  coordinator := (newConnection.coordinator.goto 0 .reading).send [firstReply]
  session := 0
  outbound := encodeFrame sha
    (newConnection.client.advance.advance.frame (.queryCurrentness (askedPlan 2)))
  returned :=
    [⟨.queryCurrentness (askedPlan 1), none,
        PlannerClient.interrupted (.queryCurrentness (askedPlan 1))
          "receive bound of 15000 ms elapsed with an incomplete message"⟩,
      ⟨.queryCurrentness (askedPlan 2), some (firstReply.received {}),
        .currentness .revalidationRequired⟩]

/-- A call begins, and its frame is all that is under way to the session. -/
theorem step_call {s : ClientSystem} {call : ClientCall} (hwaiting : s.waiting = none)
    (hfits : s.client.exceedsCeiling call = false) (houtbound : s.outbound = []) :
    s.step sha (.call call) = some { s with
      client := s.client.advance
      waiting := some call
      outbound := encodeFrame sha (s.client.advance.frame call) } := by
  unfold step
  dsimp only
  rw [hwaiting]
  dsimp only
  rw [hfits, if_neg Bool.false_ne_true, houtbound, List.nil_append]

/-- A call fails before anything has arrived. -/
theorem step_interrupt {s : ClientSystem} {call : ClientCall} (hwaiting : s.waiting = some call)
    (detail : String) : s.step sha (.interrupt 0 detail) =
      some (s.returns call none (PlannerClient.interrupted call detail)) := by
  unfold step
  dsimp only
  rw [hwaiting]
  dsimp only
  rw [List.take_zero, readFrame_nil]
  rfl

theorem run_lateAnswer : run (step sha) newConnection lateAnswer = some (lateConnection sha) := by
  rw [lateAnswer, run_cons, step_call rfl rfl rfl, Option.bind_some, run_cons, step_interrupt rfl,
    Option.bind_some, run_cons, sessionReads_firstQuery]
  · rw [Option.bind_some, run_cons, proceed_firstQuery rfl rfl rfl, Option.bind_some, run_cons,
      step_call rfl rfl rfl, Option.bind_some, run_cons, read_firstReply rfl rfl rfl]
    rfl
  · rfl
  · rfl
  · rfl

/-- A late answer is taken for the answer to the next query, whatever the hash. -/
theorem not_returned_paired : ¬ ∃ sha, ∀ (s s' : ClientSystem) (actions : List ClientAction),
    s.IsConnected sha → run (step sha) s actions = some s' →
      ∀ returned ∈ s'.returned, returned.IsPaired sha s'.client.limits := by
  rintro ⟨sha, h⟩
  have hpaired := h newConnection (lateConnection sha) lateAnswer isConnected_newConnection
    run_lateAnswer _ (List.mem_cons_of_mem _ (List.mem_singleton_self _))
  rcases hpaired with ⟨_, _, hfailed⟩ | ⟨response, hresponse, -, payload, hdecoded, hplan, -⟩
  · cases hfailed
  · obtain rfl := Option.some.inj hresponse
    have hanswer : payload = firstAnswer.bytes :=
      Except.ok.inj (hdecoded.symm.trans decode_firstReply)
    rw [hanswer] at hplan
    exact absurd hplan (by decide)

end ClientSystem

end PathPlanner
