import PathPlanner.Coordinator.Sections

/-!
# What a coordinator sends to its clients

The thread of a client's session takes a frame, handles it, and sends one frame back, which carries the
request identity of the frame that it answers. No other thread and no administrative call writes to the
session of a client: requests are relayed to workers, and notices go to workers.

## Main definitions

* `SentFrame.Answers`: a frame answers the frame of a client
* `SessionActivity.Handles`: the thread of a session is at the frame of a client
* `Coordinator.ClientMoves`: how the thread of a client's session moves

## Main results

* `Coordinator.receive_client`, `Coordinator.proceed_client`: a frame is handled until it is answered
* `Coordinator.clientMoves_of_step`: **what the session of a client sees** of a section
-/

namespace PathPlanner

/-! ## Clients -/

/-- The frame is of a kind that a client sends. -/
def WireFrame.IsOfClient (frame : WireFrame) : Prop :=
  frame.type = .snapshotRequest ∨ frame.type = .planRequest ∨ frame.type = .validateCurrentness

/-- A frame of the coordinator answers the frame of a client: it carries the request identity of that
frame, and an answer about currentness is about the plan of the query. -/
structure SentFrame.Answers (codec : PayloadCodec) (frame : WireFrame) (sent : SentFrame) :
    Prop where
  request : sent.request = frame.request
  plan : ∀ payload, sent.message = .currentnessResult payload →
    ∃ query, codec.decodeQuery frame.payload = .ok query ∧ payload.plan = query.plan
  declarable : ∀ payload, sent.message = .planRequest payload ∨
    sent.message = .planResult payload → Coordinator.Declarable payload

/-- The thread of a session is at the frame of a client. -/
inductive SessionActivity.Handles (codec : PayloadCodec) (frame : WireFrame) :
    SessionActivity → Prop
  | answering (epoch : CoordinatorEpoch) {query : CurrentnessQueryPayload}
      (classified : Currentness) (h : codec.decodeQuery frame.payload = .ok query) :
      Handles codec frame (.answering epoch frame query classified)
  | describing (epoch : CoordinatorEpoch) : Handles codec frame (.describing epoch frame)
  | requesting (epoch : CoordinatorEpoch) (payload : List UInt8) :
      Handles codec frame (.requesting epoch frame.request payload)
  | relaying {d : Dispatch} (h : d.request = frame.request) : Handles codec frame (.relaying d)
  | unwritable {d : Dispatch} (h : d.request = frame.request) : Handles codec frame (.unwritable d)
  | waiting {d : Dispatch} (h : d.request = frame.request) : Handles codec frame (.waiting d)

namespace Coordinator

variable {sha : List UInt8 → Sha256Digest} {codec : PayloadCodec} {c c' : Coordinator}
  {action : CoordinatorAction} {index : ℕ} {session : Session} {frame : WireFrame}

/-- How a section moves the thread of a client's session that is at a frame, and which frames it
sends there. -/
inductive ClientMoves (codec : PayloadCodec) (frame : WireFrame) (old : SessionActivity) :
    SessionActivity → List SentFrame → Prop
  | stay : ClientMoves codec frame old old []
  | handle (hold : old.Handles codec frame) {new : SessionActivity}
      (hnew : new.Handles codec frame) : ClientMoves codec frame old new []
  | answer (hold : old.Handles codec frame) {sent : SentFrame} (h : sent.Answers codec frame) :
      ClientMoves codec frame old .reading [sent]
  | close (hold : old = .reading ∨ old = .closing) {new : SessionActivity}
      (hnew : new = .closing ∨ new = .closed) : ClientMoves codec frame old new []

theorem answers_errorFrame (epoch : CoordinatorEpoch) (status : WireStatus)
    (planStatus : PlanStatus) (code : DiagnosticCode) (detail : String) :
    (errorFrame index epoch frame.request status planStatus code detail).Answers codec frame where
  request := rfl
  plan _ h := by cases h
  declarable _ h := by rcases h with h | h <;> cases h

/-- **A client's frame that is received** is handled next, or is answered with an error. -/
theorem receive_client (hs : c.sessions[index]? = some session)
    (hrole : session.workerRole = false) (hframe : frame.IsOfClient) (answers : Option ℕ) :
    (∃ activity, activity.Handles codec frame ∧
      Local c (c.receive codec index session frame answers) index (activity, false) []) ∨
    ∃ sent : SentFrame, sent.session = index ∧ sent.Answers codec frame ∧
      Local c (c.receive codec index session frame answers) index (.reading, false) [sent] := by
  have hgoto (activity : SessionActivity) := hrole ▸ Local.goto_nil hs activity
  have hsend (activity : SessionActivity) (frames : List SentFrame) :=
    hrole ▸ Local.goto hs activity frames
  unfold receive
  rcases hframe with htype | htype | htype <;> rw [htype] <;> dsimp only
  · exact Or.inl ⟨_, .describing c.sendEpoch, hgoto _⟩
  · rw [hrole, if_neg Bool.false_ne_true]
    unfold receiveRequest
    split
    · exact Or.inr ⟨_, rfl, answers_errorFrame _ _ _ _ _, hsend _ _⟩
    · split_ifs with hid
      · exact Or.inr ⟨_, rfl, answers_errorFrame _ _ _ _ _, hsend _ _⟩
      · rw [not_not.mp hid]
        exact Or.inl ⟨_, .requesting c.sendEpoch frame.payload, hgoto _⟩
  · unfold receiveQuery
    split
    · exact Or.inr ⟨_, rfl, answers_errorFrame _ _ _ _ _, hsend _ _⟩
    · next query hquery => exact Or.inl ⟨_, .answering c.sendEpoch _ hquery, hgoto _⟩

/-- The reply to a dispatch of the frame answers it. -/
theorem PayloadsFit.answers_replyFrame (h : c.PayloadsFit) {d : Dispatch}
    (hd : d.request = frame.request) :
    (replyFrame index d (outcomeOf (c.pending.lookup d.request))).Answers codec frame := by
  unfold replyFrame
  split_ifs with hok
  · refine ⟨hd, fun _ h => (nomatch h), fun payload hpayload => ?_⟩
    obtain rfl := CoordinatorMessage.planResult.inj (hpayload.resolve_left fun h => nomatch h)
    cases hslot : c.pending.lookup d.request with
    | none => exact declarable_nil
    | some slot =>
      rw [outcomeOf]
      split_ifs
      · exact h.slots _ slot hslot
      · exact declarable_nil
  · rw [hd]
    exact answers_errorFrame _ _ _ _ _

/-- The session at whose end a frame is received. -/
theorem exists_of_receive {answers : Option ℕ}
    (h : c.step sha codec (.receive index frame answers) = some c') : ∃ session,
      c.sessions[index]? = some session ∧ session.activity = .reading ∧
        c' = c.receive codec index session frame answers := by
  unfold step at h
  dsimp only at h
  split at h
  · next session hs =>
    split at h
    · next hreading => exact ⟨session, hs, hreading, (Option.some.inj h).symm⟩
    · cases h
  · cases h

/-- A session that ends is closing next, and sends nothing. -/
theorem local_finish (h : c.step sha codec (.finish index) = some c') : ∃ session,
    c.sessions[index]? = some session ∧
      (session.activity = .reading ∨ session.activity = .leaving) ∧
      Local c c' index (.closing, session.workerRole) [] := by
  unfold step at h
  dsimp only at h
  split at h
  · next session hs =>
    have hlocal : Local c (c.finish index) index (.closing, session.workerRole) [] :=
      .of_modify (g := fun p => (.closing, p.2)) hs (map_modify _ _ fun _ => rfl)
        (List.append_nil _).symm
    split at h
    · next hreading =>
      obtain rfl := Option.some.inj h
      exact ⟨session, hs, Or.inl hreading, hlocal⟩
    · next hleaving =>
      obtain rfl := Option.some.inj h
      exact ⟨session, hs, Or.inr hleaving, hlocal⟩
    · cases h
  · cases h

/-- **A client's frame that is handled** is handled further, or is answered. -/
theorem proceed_client (hs : c.sessions[index]? = some session)
    (hrole : session.workerRole = false) (hfit : c.PayloadsFit)
    (hhandles : session.activity.Handles codec frame)
    (h : c.proceed sha codec index session = some c') :
    (∃ activity frames, activity.Handles codec frame ∧ Local c c' index (activity, false) frames ∧
      ∀ sent ∈ frames, ∃ d, session.activity = .relaying d ∧ d.worker = some sent.session) ∨
    ∃ sent : SentFrame, sent.session = index ∧ sent.Answers codec frame ∧
      Local c c' index (.reading, false) [sent] := by
  unfold proceed at h
  generalize hactivity : session.activity = activity at h hhandles
  cases hhandles with
  | @answering epoch query classified hquery =>
    obtain rfl := Option.some.inj h
    refine Or.inr ⟨_, rfl, ⟨rfl, fun payload hpayload => ⟨query, hquery, ?_⟩, fun _ h => ?_⟩,
      hrole ▸ Local.goto hs _ _⟩
    case refine_2 => rcases h with h | h <;> cases h
    obtain rfl := CoordinatorMessage.currentnessResult.inj hpayload
    unfold answerOf
    split_ifs <;> rfl
  | describing epoch =>
    obtain rfl := Option.some.inj h
    refine Or.inr ⟨_, rfl, ⟨rfl, fun _ h => ?_, fun _ h => ?_⟩, hrole ▸ Local.goto hs _ _⟩
    · cases h
    · rcases h with h | h <;> cases h
  | requesting epoch payload =>
    obtain rfl := Option.some.inj h
    obtain ⟨d, hd, activity, hcases, hlocal⟩ := Local.dispatch hs epoch frame.request payload
    refine Or.inl ⟨activity, [], ?_, hrole ▸ hlocal, List.forall_mem_nil _⟩
    rcases hcases with rfl | rfl
    · exact .waiting hd
    · exact .relaying hd
  | @relaying d hd =>
    obtain ⟨worker, hworker, rfl⟩ := Option.map_eq_some_iff.mp h
    exact Or.inl ⟨_, _, .waiting hd, hrole ▸ Local.goto hs _ _,
      List.forall_mem_singleton.mpr ⟨d, rfl, hworker⟩⟩
  | unwritable hd =>
    obtain rfl := Option.some.inj h
    exact Or.inl ⟨_, _, .waiting hd,
      hrole ▸ .of_modify (g := fun p => (_, p.2)) hs (places_goto _) (List.append_nil _).symm,
      List.forall_mem_nil _⟩
  | @waiting d hd =>
    obtain rfl := Option.some.inj h
    refine Or.inr ⟨_, ?_, hfit.answers_replyFrame hd, hrole ▸ Local.collect hs d⟩
    unfold replyFrame
    split_ifs <;> rfl

/-! ## Sections that a client sees -/

section Moves

variable {activity : SessionActivity} (htargets : c.TargetsWorkers)
  (hplace : c.places[index]? = some (activity, false))

include hplace in
/-- The session of a client is not that of a worker. -/
theorem not_isWorker_of_place : ¬ c.IsWorker index := by
  rintro ⟨session, hs, hrole⟩
  have hsame := (places_getElem? hs).symm.trans hplace
  rw [show session.workerRole = false from congrArg Prod.snd (Option.some.inj hsame)] at hrole
  cases hrole

/-- Frames to other sessions are not for the client. -/
theorem filter_session_eq_nil {frames : List SentFrame}
    (h : ∀ sent ∈ frames, sent.session ≠ index) :
    frames.filter (fun sent => sent.session = index) = [] :=
  List.filter_eq_nil_iff.mpr fun sent hsent => by rw [decide_eq_true_iff]; exact h sent hsent

include hplace in
/-- The section of another thread. -/
theorem Local.clientMoves {i : ℕ} (hi : i ≠ index) {place : SessionActivity × Bool}
    {frames : List SentFrame} (h : Local c c' i place frames)
    (hframes : ∀ sent ∈ frames, sent.session = i ∨ c.IsWorker sent.session) :
    ∃ new frames, c'.places[index]? = some (new, false) ∧ c'.sent = c.sent ++ frames ∧
      ClientMoves codec frame activity new (frames.filter fun sent => sent.session = index) := by
  refine ⟨activity, frames, (h.others index (Ne.symm hi)).trans hplace, h.sent, ?_⟩
  rw [filter_session_eq_nil fun sent hsent => ?_]
  · exact .stay
  · rcases hframes sent hsent with hown | hworker
    · rw [hown]
      exact hi
    · rintro rfl
      exact not_isWorker_of_place hplace hworker

omit hplace in
/-- The section of its own thread, which sends nothing. -/
theorem Local.clientMoves_self {new : SessionActivity} (h : Local c c' index (new, false) [])
    (hmoves : ClientMoves codec frame activity new []) :
    ∃ new frames, c'.places[index]? = some (new, false) ∧ c'.sent = c.sent ++ frames ∧
      ClientMoves codec frame activity new (frames.filter fun sent => sent.session = index) :=
  ⟨new, [], h.place, h.sent, hmoves⟩

include hplace in
/-- A section that leaves the sessions as they are and writes to workers. -/
theorem clientMoves_of_places (hplaces : c'.places = c.places) {frames : List SentFrame}
    (hsent : c'.sent = c.sent ++ frames) (hframes : ∀ sent ∈ frames, c.IsWorker sent.session) :
    ∃ new frames, c'.places[index]? = some (new, false) ∧ c'.sent = c.sent ++ frames ∧
      ClientMoves codec frame activity new (frames.filter fun sent => sent.session = index) := by
  refine ⟨activity, frames, by rw [hplaces, hplace], hsent, ?_⟩
  rw [filter_session_eq_nil fun sent hmem => ?_]
  · exact .stay
  · rintro rfl
    exact not_isWorker_of_place hplace (hframes sent hmem)

include htargets hplace in
/-- **What the session of a client sees** of a section, when its own thread does not receive. -/
theorem clientMoves_of_step (hfit : c.PayloadsFit)
    (hactivity : activity = .reading ∨ activity.Handles codec frame ∨ activity = .closing ∨
      activity = .closed)
    (hother : ∀ f answers, action ≠ .receive index f answers)
    (hstep : c.step sha codec action = some c') :
    ∃ new frames, c'.places[index]? = some (new, false) ∧ c'.sent = c.sent ++ frames ∧
      ClientMoves codec frame activity new (frames.filter fun sent => sent.session = index) := by
  have hown {session : Session} (hs : c.sessions[index]? = some session) :
      session.activity = activity ∧ session.workerRole = false :=
    Prod.mk.inj (Option.some.inj ((places_getElem? hs).symm.trans hplace))
  have hnil : c.sent = c.sent ++ [] := (List.append_nil _).symm
  cases action with
  | connect =>
    obtain rfl := Option.some.inj hstep
    unfold connect
    split_ifs
    · exact clientMoves_of_places hplace rfl hnil (List.forall_mem_nil _)
    · refine ⟨activity, [], ?_, hnil, .stay⟩
      have hbound : index < c.places.length := (List.getElem?_eq_some_iff.mp hplace).1
      rw [places, List.map_append]
      exact (List.getElem?_append_left hbound).trans hplace
  | receive i f answers =>
    have hi : i ≠ index := by
      rintro rfl
      exact hother f answers rfl
    obtain ⟨session, hs, -, rfl⟩ := exists_of_receive hstep
    obtain ⟨place, frames, hlocal, hframes⟩ := local_receive codec hs f answers
    exact hlocal.clientMoves hplace hi fun sent hsent => Or.inl (hframes sent hsent)
  | proceed i =>
    obtain ⟨session, hs, hproceed⟩ := Option.bind_eq_some_iff.mp hstep
    by_cases hi : i = index
    · subst hi
      obtain ⟨rfl, hrole⟩ := hown hs
      rcases hactivity with hreading | hhandles | hclosing | hclosed
      · rw [proceed, hreading] at hproceed
        cases hproceed
      · rcases proceed_client hs hrole hfit hhandles hproceed with
          ⟨new, frames, hnew, hlocal, hframes⟩ | ⟨sent, hsession, hanswers, hlocal⟩
        · refine ⟨new, frames, hlocal.place, hlocal.sent, ?_⟩
          rw [filter_session_eq_nil fun sent hsent => ?_]
          · exact .handle hhandles hnew
          · -- the frame is relayed to a worker
            obtain ⟨d, hrelaying, hworker⟩ := hframes sent hsent
            rintro rfl
            exact not_isWorker_of_place hplace (htargets.isWorker_of_relaying hs hrelaying hworker)
        · refine ⟨.reading, [sent], hlocal.place, hlocal.sent, ?_⟩
          rw [List.filter_singleton, hsession, decide_eq_true rfl]
          exact .answer hhandles hanswers
      · rw [proceed, hclosing] at hproceed
        cases hproceed
      · rw [proceed, hclosed] at hproceed
        cases hproceed
    · obtain ⟨place, frames, hlocal, hframes⟩ := local_proceed hs hproceed
      refine hlocal.clientMoves hplace hi fun sent hsent => (hframes sent hsent).imp_right ?_
      rintro ⟨d, hrelaying, hworker⟩
      exact htargets.isWorker_of_relaying hs hrelaying hworker
  | sendFails i =>
    unfold step at hstep
    dsimp only at hstep
    split at hstep
    · next session hs =>
      split at hstep
      · next d hrelaying =>
        obtain rfl := Option.some.inj hstep
        have hlocal := Local.goto_nil hs (.unwritable d)
        by_cases hi : i = index
        · subst hi
          obtain ⟨rfl, hrole⟩ := hown hs
          rw [hrelaying] at hactivity ⊢
          have hhandles :=
            (hactivity.resolve_left nofun).resolve_right (by rintro (h | h) <;> cases h)
          cases hhandles with
          | relaying hd =>
            exact (hrole ▸ hlocal).clientMoves_self
              (.handle (.relaying hd) (.unwritable hd))
        · exact hlocal.clientMoves hplace hi (List.forall_mem_nil _)
      · cases hstep
    · cases hstep
  | finish i =>
    obtain ⟨session, hs, hleaves, hlocal⟩ := local_finish hstep
    by_cases hi : i = index
    · subst hi
      obtain ⟨rfl, hrole⟩ := hown hs
      refine (hrole ▸ hlocal).clientMoves_self (.close (Or.inl ?_) (Or.inl rfl))
      refine hleaves.resolve_right fun hleaving => ?_
      rw [hleaving] at hactivity
      rcases hactivity with h | h | h | h <;> cases h
    · exact hlocal.clientMoves hplace hi (List.forall_mem_nil _)
  | release i =>
    unfold step at hstep
    dsimp only at hstep
    split at hstep
    · next session hs =>
      split at hstep
      · next hclosing =>
        obtain rfl := Option.some.inj hstep
        have hlocal : Local c (c.release i session) i (.closed, session.workerRole) [] :=
          .of_modify (g := fun p => (.closed, p.2)) hs (map_modify _ _ fun _ => rfl) hnil
        by_cases hi : i = index
        · subst hi
          obtain ⟨rfl, hrole⟩ := hown hs
          exact (hrole ▸ hlocal).clientMoves_self (.close (Or.inr hclosing) (Or.inr rfl))
        · exact hlocal.clientMoves hplace hi (List.forall_mem_nil _)
      · cases hstep
    · cases hstep
  | fenceWorker boot =>
    obtain rfl := Option.some.inj hstep
    refine clientMoves_of_places hplace ?_ (?_ : _ = c.sent ++ []) (List.forall_mem_nil _)
    · unfold Coordinator.fenceWorker
      split
      · rfl
      · dsimp only
        split <;> rfl
    · unfold Coordinator.fenceWorker
      rw [List.append_nil]
      split
      · rfl
      · dsimp only
        split <;> rfl
  | advanceEpoch epoch =>
    unfold step advanceEpoch at hstep
    dsimp only at hstep
    split_ifs at hstep <;> obtain rfl := Option.some.inj hstep
    · exact clientMoves_of_places hplace rfl hnil (List.forall_mem_nil _)
    · exact clientMoves_of_places hplace rfl hnil (List.forall_mem_nil _)
  | publishSnapshot snapshot epoch =>
    obtain rfl := Option.some.inj hstep
    exact clientMoves_of_places hplace rfl hnil (List.forall_mem_nil _)
  | finishCall i =>
    obtain ⟨call, hcall, rfl⟩ := Option.map_eq_some_iff.mp hstep
    have htarget := htargets.calls call (List.mem_of_getElem? hcall)
    cases call with
    | advanceRuntime epoch notices =>
      exact clientMoves_of_places hplace rfl rfl fun sent hsent =>
        htarget _ (List.mem_map_of_mem hsent)
    | publishRuntime snapshot => exact clientMoves_of_places hplace rfl hnil (List.forall_mem_nil _)
    | notifyFence session boot =>
      exact clientMoves_of_places hplace rfl rfl
        (List.forall_mem_singleton.mpr (htarget session (List.mem_singleton_self _)))
  | runtime op =>
    obtain rfl := Option.some.inj hstep
    exact clientMoves_of_places hplace rfl hnil (List.forall_mem_nil _)

end Moves

end Coordinator

end PathPlanner
