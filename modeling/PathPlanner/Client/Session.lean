import PathPlanner.Client.State
import PathPlanner.Coordinator.Clients

/-!
# A client and its session

A client and a session of a coordinator are connected by two streams of bytes. A call sends a frame
and takes the next frame that arrives for its response. When the receive bound elapses the call fails,
the bytes that it has read are gone, and the connection stays: a response that arrives later is taken
by the next call.

## Main definitions

* `ReturnedCall`: a call with what it took for the response
* `ClientSystem`: a client, the coordinator, and the bytes between them
* `ClientSystem.step`: one step of either side
* `ClientSystem.IsConnected`: the client has connected to a coordinator in use
* `ClientSystem.BeginsSettled`: no call begins while anything of an earlier call is outstanding
-/

namespace PathPlanner

open Run

/-- A call that has returned, with the frame that it took for the response. -/
structure ReturnedCall where
  call : ClientCall
  response : Option WireFrame
  result : ClientReturn

/-- The call has failed, or what it returned is paired with the response that it took. -/
def ReturnedCall.IsPaired (sha : List UInt8 → Sha256Digest) (limits : ResourceLimits)
    (returned : ReturnedCall) : Prop :=
  (∃ status error, returned.result = .failed status error) ∨
    ∃ response, returned.response = some response ∧
      returned.call.IsPaired sha limits response returned.result

/-- A client that is connected to a session of a coordinator, and the bytes between them: those that
the client has sent and the session has not read, and those that the coordinator has sent and the
client has not read. -/
structure ClientSystem where
  client : PlannerClient
  coordinator : Coordinator
  session : ℕ
  outbound : List UInt8 := []
  inbound : List UInt8 := []
  waiting : Option ClientCall := none
  returned : List ReturnedCall := []

/-- A step of the client or of the coordinator. -/
inductive ClientAction
  /-- A call begins, and its frame is sent. -/
  | call (call : ClientCall)
  /-- A call begins, and fails when some bytes of its frame are sent. -/
  | sendFails (call : ClientCall) (count : ℕ) (error : String)
  /-- The call that waits reads a frame. -/
  | read
  /-- The call that waits has read some bytes and gives up: the receive bound has elapsed, or the
  connection is lost. -/
  | interrupt (count : ℕ) (detail : String)
  /-- The session reads a frame; some bytes of what it sends are written. -/
  | sessionReads (count : ℕ)
  /-- Another section of the coordinator; some bytes of what it sends to the session are written. -/
  | coordinator (action : CoordinatorAction) (count : ℕ)

namespace ClientSystem

variable (sha : List UInt8 → Sha256Digest) (s : ClientSystem)

/-- The call returns. -/
def returns (call : ClientCall) (response : Option WireFrame) (result : ClientReturn) :
    ClientSystem :=
  { s with waiting := none, returned := s.returned ++ [⟨call, response, result⟩] }

/-- The bytes that the coordinator sends to the session in a section. -/
def written (c : Coordinator) : List UInt8 :=
  ((c.sent.drop s.coordinator.sent.length).filter fun sent => sent.session = s.session).flatMap
    fun sent => encodeFrame sha (sent.received s.coordinator.limits)

/-- The coordinator has run a section. -/
def advance (c : Coordinator) (count : ℕ) : ClientSystem :=
  { s with coordinator := c, inbound := s.inbound ++ (s.written sha c).take count }

/-- A section that is not the reading of the session itself: what another session receives has passed
`ReadFrame`. -/
def IsForeign (action : CoordinatorAction) : Prop :=
  match action with
  | .receive index frame _ =>
    index ≠ s.session ∧ frame.payload.length ≤ s.coordinator.limits.maxFrameBytes.toNat
  | _ => True

instance (action : CoordinatorAction) : Decidable (s.IsForeign action) := by
  unfold IsForeign
  split <;> infer_instance

/-- One step. The calls of a client run one after the other under its mutex. -/
def step (s : ClientSystem) : ClientAction → Option ClientSystem
  | .call call =>
    match s.waiting with
    | some _ => none
    | none =>
      if s.client.exceedsCeiling call then
        some (s.returns call none PlannerClient.ceilingExceeded)
      else
        let client := s.client.advance
        some { s with
          client := client
          waiting := some call
          outbound := s.outbound ++ encodeFrame sha (client.frame call) }
  | .sendFails call count error =>
    match s.waiting with
    | some _ => none
    | none =>
      if s.client.exceedsCeiling call then none
      else
        let client := s.client.advance
        let s := { s with
          client := client
          outbound := s.outbound ++ (encodeFrame sha (client.frame call)).take count }
        some (s.returns call none (.failed none (textBytes error)))
  | .read =>
    match s.waiting with
    | none => none
    | some call =>
      match readFrame sha s.client.limits.maxFrameBytes s.inbound with
      | .incomplete => none
      | .rejected detail rest =>
        some ({ s with inbound := rest }.returns call none (PlannerClient.interrupted call detail))
      | .frame response rest =>
        let (result, client) := s.client.conclude sha call response
        some ({ s with client := client, inbound := rest }.returns call (some response) result)
  | .interrupt count detail =>
    match s.waiting with
    | none => none
    | some call =>
      match readFrame sha s.client.limits.maxFrameBytes (s.inbound.take count) with
      | .incomplete =>
        let s := { s with inbound := s.inbound.drop count }
        some (s.returns call none (PlannerClient.interrupted call detail))
      | _ => none
  | .sessionReads count =>
    match readFrame sha s.coordinator.limits.maxFrameBytes s.outbound with
    | .incomplete => none
    | .rejected _ rest =>
      (s.coordinator.step sha (wireCodec sha) (.finish s.session)).map fun c =>
        { s with outbound := rest }.advance sha c count
    | .frame frame rest =>
      (s.coordinator.step sha (wireCodec sha) (.receive s.session frame none)).map fun c =>
        { s with outbound := rest }.advance sha c count
  | .coordinator action count =>
    if s.IsForeign action then
      (s.coordinator.step sha (wireCodec sha) action).map fun c => s.advance sha c count
    else none

/-! ## Connections -/

/-- The client is connected to the last session that a coordinator has accepted. -/
structure IsConnected : Prop where
  accepted : ∃ limits snapshot initialEpoch records actions c,
    run (Coordinator.step sha (wireCodec sha))
      ((Coordinator.new limits snapshot initialEpoch).recoverStore sha records) actions = some c ∧
    (∀ action ∈ actions, Coordinator.ReadsFrames action) ∧
    c.sessionCount < c.limits.maxSessions.toNat ∧ s.coordinator = c.connect ∧
    s.session = c.sessions.length
  outbound : s.outbound = []
  inbound : s.inbound = []
  waiting : s.waiting = none
  returned : s.returned = []

/-- Nothing of an earlier call is outstanding: the session waits for the next frame or has ended, and
no bytes are under way. -/
def IsSettled : Prop :=
  s.inbound = [] ∧
    (s.outbound = [] ∧ s.coordinator.activities[s.session]? = some .reading ∨
      s.coordinator.activities[s.session]? = some .closing ∨
      s.coordinator.activities[s.session]? = some .closed)

/-- A call that sends anything begins only when nothing of an earlier call is outstanding. -/
def BeginsSettled (s : ClientSystem) : ClientAction → Prop
  | .call call => s.client.exceedsCeiling call = true ∨ s.IsSettled
  | .sendFails .. => s.IsSettled
  | _ => True

end ClientSystem

end PathPlanner
