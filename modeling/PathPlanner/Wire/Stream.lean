import PathPlanner.Library.Run
import PathPlanner.Wire.Transport

/-!
# Frames in pieces

A frame is handed to the socket and taken from it in pieces of any size. One sender at a time loops
over `send` until its frame is out, and the reader loops over `recv` until the header and then the
payload are complete. Whatever the pieces are, the reader finds the frames that were sent, whole and
in order.

## Main definitions

* `ReadPlace`: where `ReadFrame` and the `RecvExact` in it stand
* `FrameStream`, `FrameStream.step`: a sender, a reader and the bytes between them
* `FrameStream.IsSound`: what is on its way

## Main results

* `FrameStream.IsSound.step`: the step lemma
* `FrameStream.received_inOrder`: **what is read is what was sent**, in order, and nothing is lost
-/

namespace PathPlanner

open ByteReader Run

/-! ## Calls -/

/-- `internal::RecvOutcome`. -/
inductive RecvOutcome
  | ok
  | peerClosed
  | boundExceeded
  | error
  deriving DecidableEq

/-- The most bytes that one call of `send` or `recv` is asked for. -/
def socketChunk : ℕ := 2 ^ 20

/-- Where `ReadFrame` stands. -/
inductive ReadPlace
  /-- `RecvExact` of the header. -/
  | header (bytes : List UInt8)
  /-- `RecvExact` of the payload: the bytes with the header, and the size of the frame. -/
  | payload (bytes : List UInt8) (size : ℕ)
  /-- `ReadFrame` has returned an error of its own. -/
  | rejected (detail : String) (bytes : List UInt8)
  /-- `RecvExact` has failed. -/
  | interrupted (outcome : RecvOutcome) (detail : String) (bytes : List UInt8)

namespace ReadPlace

/-- What the call has read. -/
def bytes : ReadPlace → List UInt8
  | header bytes | payload bytes _ | rejected _ bytes | interrupted _ _ bytes => bytes

/-- How many bytes `RecvExact` still waits for. -/
def wanted : ReadPlace → ℕ
  | header bytes => wireHeaderBytes - bytes.length
  | payload bytes size => size - bytes.length
  | rejected _ _ | interrupted _ _ _ => 0

/-- The call has not failed. -/
def isReading : ReadPlace → Bool
  | header _ | payload _ _ => true
  | rejected _ _ | interrupted _ _ _ => false

end ReadPlace

section Read

variable (sha : List UInt8 → Sha256Digest) (maxFrameBytes : UInt32)

/-- `ReadFrame` when more of the payload has arrived: where it stands, or the next call with the frame
that is returned. -/
def readPayloadPart (bytes : List UInt8) (size : ℕ) : ReadPlace × Option WireFrame :=
  if bytes.length < size then (.payload bytes size, none)
  else
    match codecResult (decodeFrameBytes sha maxFrameBytes bytes) with
    | .ok frame => (.header [], some frame)
    | .error (_, detail) => (.rejected ("frame rejected: " ++ detail) bytes, none)

/-- `ReadFrame` when more of the header has arrived. -/
def readHeaderPart (bytes : List UInt8) : ReadPlace × Option WireFrame :=
  if bytes.length < wireHeaderBytes then (.header bytes, none)
  else
    let payloadBytes := ofLittleEndian ((bytes.drop payloadLengthOffset).take 4)
    if payloadBytes > maxFrameBytes.toNat then
      (.rejected "declared payload length exceeds the configured frame ceiling" bytes, none)
    else readPayloadPart sha maxFrameBytes bytes (wireHeaderBytes + payloadBytes)

/-- `ReadFrame` when `recv` has returned. -/
def ReadPlace.next (place : ReadPlace) (data : List UInt8) : ReadPlace × Option WireFrame :=
  match place with
  | header bytes => readHeaderPart sha maxFrameBytes (bytes ++ data)
  | payload bytes size => readPayloadPart sha maxFrameBytes (bytes ++ data) size
  | place => (place, none)

end Read

/-! ## The system -/

/-- A connection in one direction: what the current `SendAll` has not handed over, the bytes on their
way, the current `ReadFrame`, and the frames that calls have been given and have returned. -/
structure FrameStream where
  outgoing : List UInt8 := []
  broken : Bool := false
  wire : List UInt8 := []
  place : ReadPlace := .header []
  sent : List WireFrame := []
  received : List WireFrame := []

/-- What the sender, the reader or the socket does. -/
inductive StreamAction
  /-- `SendFrame` is called. -/
  | send (frame : WireFrame)
  /-- `send` takes some bytes. -/
  | accept (count : ℕ)
  /-- `send` fails, and nothing more is sent. -/
  | sendFails
  /-- `recv` returns some bytes. -/
  | deliver (count : ℕ)
  /-- `recv` fails. -/
  | recvFails (outcome : RecvOutcome) (detail : String)

namespace FrameStream

variable (sha : List UInt8 → Sha256Digest) (maxFrameBytes : UInt32)

/-- One call of `SendFrame`, `send` or `recv`. -/
def step (s : FrameStream) : StreamAction → Option FrameStream
  | .send frame =>
    if s.outgoing = [] ∧ s.broken = false then
      some { s with outgoing := encodeFrame sha frame, sent := s.sent ++ [frame] }
    else none
  | .accept count =>
    if s.broken = false ∧ 0 < count ∧ count ≤ min s.outgoing.length socketChunk then
      some { s with
        outgoing := s.outgoing.drop count
        wire := s.wire ++ s.outgoing.take count }
    else none
  | .sendFails => if s.outgoing = [] then none else some { s with broken := true }
  | .deliver count =>
    if 0 < count ∧ count ≤ min s.place.wanted socketChunk ∧ count ≤ s.wire.length then
      let next := s.place.next sha maxFrameBytes (s.wire.take count)
      some { s with
        wire := s.wire.drop count
        place := next.1
        received := s.received ++ next.2.toList }
    else none
  | .recvFails outcome detail =>
    if s.place.isReading ∧ outcome ≠ .ok then
      some { s with place := .interrupted outcome detail s.place.bytes }
    else none

/-- The frames that are sent have known flags and a length that the header can hold. -/
def SendsDescribable (_ : FrameStream) : StreamAction → Prop
  | .send frame => frame.IsDescribable
  | _ => True

instance (s : FrameStream) (action : StreamAction) : Decidable (s.SendsDescribable action) :=
  match action with
  | .send frame => decidable_of_iff
      (frame.flags &&& ~~~wireKnownFlags = 0 ∧ frame.payload.length < 2 ^ 32)
      ⟨fun h => ⟨h.1, h.2⟩, fun h => ⟨h.flags_known, h.payload_lt⟩⟩
  | .accept _ | .sendFails | .deliver _ | .recvFails _ _ => isTrue trivial

end FrameStream

/-! ## Reading a frame -/

section Read

variable (sha : List UInt8 → Sha256Digest) (maxFrameBytes : UInt32)

/-- Where the call stands in the frames that are still to be read. -/
def ReadPlace.StandsIn (rest : List WireFrame) : ReadPlace → Prop
  | header bytes => bytes.length < wireHeaderBytes
  | payload bytes size => bytes.length < size ∧ ∃ frame later, rest = frame :: later ∧
    frame.payload.length ≤ maxFrameBytes.toNat ∧ size = (encodeFrame sha frame).length
  | rejected _ _ => ∃ frame later, rest = frame :: later ∧
    maxFrameBytes.toNat < frame.payload.length
  | interrupted _ _ _ => True

/-- What is left to be read is in the call, or on its way. -/
structure ReadPlace.Carries (place : ReadPlace) (later : List UInt8) (rest : List WireFrame) :
    Prop where
  bytes_eq : place.bytes ++ later = rest.flatMap (encodeFrame sha)
  standsIn : place.StandsIn sha maxFrameBytes rest

variable {sha maxFrameBytes} {later : List UInt8} {rest : List WireFrame}

/-- The beginning of the frames, when there is any, is the beginning of the first one. -/
theorem prefix_of_append_eq {frame : WireFrame} {bytes : List UInt8}
    (h : bytes ++ later = (frame :: rest).flatMap (encodeFrame sha))
    (hle : bytes.length ≤ (encodeFrame sha frame).length) : bytes <+: encodeFrame sha frame := by
  rw [List.flatMap_cons] at h
  exact List.prefix_of_prefix_length_le (List.prefix_append _ later) ⟨_, h.symm⟩ hle

/-- A header declares the length of its payload. -/
theorem payloadLength_of_isPrefix {frame : WireFrame} {bytes : List UInt8}
    (hframe : frame.IsDescribable) (hstarts : bytes <+: encodeFrame sha frame)
    (hle : wireHeaderBytes ≤ bytes.length) :
    ofLittleEndian ((bytes.drop payloadLengthOffset).take 4) = frame.payload.length := by
  obtain ⟨tail, htail⟩ := hstarts
  have hroom : payloadLengthOffset + 4 ≤ wireHeaderBytes := by decide
  rw [← payloadLength_encodeFrame sha hframe.payload_lt, ← htail,
    List.drop_append_of_le_length (by omega),
    List.take_append_of_le_length (by rw [List.length_drop]; omega)]

/-- **More of a payload**: the frame is returned when it is complete. -/
theorem carries_readPayloadPart {frame : WireFrame} {bytes : List UInt8}
    (hframe : frame.IsDescribable) (hpayload : frame.payload.length ≤ maxFrameBytes.toNat)
    (h : bytes ++ later = (frame :: rest).flatMap (encodeFrame sha))
    (hle : bytes.length ≤ (encodeFrame sha frame).length) :
    ∃ rest', (readPayloadPart sha maxFrameBytes bytes (encodeFrame sha frame).length).2.toList ++
        rest' = frame :: rest ∧
      (readPayloadPart sha maxFrameBytes bytes (encodeFrame sha frame).length).1.Carries sha
        maxFrameBytes later rest' := by
  unfold readPayloadPart
  by_cases hlt : bytes.length < (encodeFrame sha frame).length
  · rw [if_pos hlt]
    exact ⟨frame :: rest, rfl, h, hlt, frame, rest, rfl, hpayload, rfl⟩
  · -- the whole frame has arrived
    have hwhole : bytes = encodeFrame sha frame :=
      (prefix_of_append_eq h hle).eq_of_length_le (Nat.le_of_not_lt hlt)
    rw [if_neg hlt, hwhole,
      decodeFrameBytes_encodeFrame sha maxFrameBytes ⟨hframe.flags_known, hpayload⟩]
    refine ⟨rest, rfl, ?_, ?_⟩
    · rw [hwhole, List.flatMap_cons] at h
      exact List.append_cancel_left h
    · show ([] : List UInt8).length < wireHeaderBytes
      decide

/-- **More of a header**: the length that it declares is that of the payload. -/
theorem carries_readHeaderPart {bytes : List UInt8} (hrest : ∀ frame ∈ rest, frame.IsDescribable)
    (h : bytes ++ later = rest.flatMap (encodeFrame sha)) (hle : bytes.length ≤ wireHeaderBytes) :
    ∃ rest', (readHeaderPart sha maxFrameBytes bytes).2.toList ++ rest' = rest ∧
      (readHeaderPart sha maxFrameBytes bytes).1.Carries sha maxFrameBytes later rest' := by
  unfold readHeaderPart
  by_cases hlt : bytes.length < wireHeaderBytes
  · rw [if_pos hlt]
    exact ⟨rest, rfl, h, hlt⟩
  rw [if_neg hlt]
  cases rest with
  | nil =>
    -- nothing is sent, so nothing has arrived
    have hnil := (List.append_eq_nil_iff.mp h).1
    rw [hnil] at hlt
    exact absurd (by decide) hlt
  | cons frame rest =>
    have hframe := hrest frame List.mem_cons_self
    have hsize := length_encodeFrame sha frame
    have hstarts := prefix_of_append_eq h (by omega)
    dsimp only
    rw [payloadLength_of_isPrefix hframe hstarts (by omega)]
    by_cases hlarge : frame.payload.length > maxFrameBytes.toNat
    · rw [if_pos hlarge]
      exact ⟨frame :: rest, rfl, h, frame, rest, rfl, hlarge⟩
    · rw [if_neg hlarge, ← hsize]
      exact carries_readPayloadPart hframe (Nat.le_of_not_lt hlarge) h (by omega)

/-- **What `recv` returns** goes to the frame that is being read. -/
theorem ReadPlace.Carries.next {place : ReadPlace} {wire : List UInt8} {count : ℕ}
    (hrest : ∀ frame ∈ rest, frame.IsDescribable)
    (h : place.Carries sha maxFrameBytes (wire ++ later) rest) (hcount : count ≤ place.wanted)
    (hwire : count ≤ wire.length) :
    ∃ rest', (place.next sha maxFrameBytes (wire.take count)).2.toList ++ rest' = rest ∧
      (place.next sha maxFrameBytes (wire.take count)).1.Carries sha maxFrameBytes
        (wire.drop count ++ later) rest' := by
  obtain ⟨hbytes, hstands⟩ := h
  have hmoved : (place.bytes ++ wire.take count) ++ (wire.drop count ++ later) =
      rest.flatMap (encodeFrame sha) := by
    rw [← hbytes, List.append_assoc, ← List.append_assoc (wire.take count), List.take_append_drop]
  have hlength : (place.bytes ++ wire.take count).length = place.bytes.length + count := by
    rw [List.length_append, List.length_take, Nat.min_eq_left hwire]
  cases place with
  | header bytes =>
    have hlt : bytes.length < wireHeaderBytes := hstands
    apply carries_readHeaderPart hrest hmoved
    rw [hlength]
    simp only [ReadPlace.wanted] at hcount
    simp only [ReadPlace.bytes]
    omega
  | payload bytes size =>
    obtain ⟨hlt, frame, tail, rfl, hpayload, hsize⟩ := hstands
    have hle : (bytes ++ wire.take count).length ≤ (encodeFrame sha frame).length := by
      simp only [ReadPlace.wanted] at hcount
      simp only [ReadPlace.bytes] at hlength
      omega
    unfold ReadPlace.next
    dsimp only
    rw [hsize]
    exact carries_readPayloadPart (hrest frame List.mem_cons_self) hpayload hmoved hle
  | rejected detail bytes =>
    obtain rfl : count = 0 := Nat.le_zero.mp hcount
    exact ⟨rest, rfl, hbytes, hstands⟩
  | interrupted outcome detail bytes =>
    obtain rfl : count = 0 := Nat.le_zero.mp hcount
    exact ⟨rest, rfl, hbytes, hstands⟩

end Read

namespace FrameStream

/-! ## The invariant -/

section Sound

variable {sha : List UInt8 → Sha256Digest} {maxFrameBytes : UInt32} {s s' : FrameStream}
  {action : StreamAction}

/-- **What is sent and not yet read is on its way**: the bytes in the call of the reader, on the wire
and in the call of the sender are those of the frames that follow the received ones. -/
structure IsSound (sha : List UInt8 → Sha256Digest) (maxFrameBytes : UInt32) (s : FrameStream) :
    Prop where
  describable : ∀ frame ∈ s.sent, frame.IsDescribable
  carries : ∃ rest, s.sent = s.received ++ rest ∧
    s.place.Carries sha maxFrameBytes (s.wire ++ s.outgoing) rest

/-- A frame that is sent follows those that are on their way. -/
theorem standsIn_append {place : ReadPlace} {rest : List WireFrame}
    (h : place.StandsIn sha maxFrameBytes rest) (frame : WireFrame) :
    place.StandsIn sha maxFrameBytes (rest ++ [frame]) := by
  cases place with
  | header bytes => exact h
  | payload bytes size =>
    obtain ⟨hlt, first, later, rfl, hfirst⟩ := h
    exact ⟨hlt, first, later ++ [frame], rfl, hfirst⟩
  | rejected detail bytes =>
    obtain ⟨first, later, rfl, hfirst⟩ := h
    exact ⟨first, later ++ [frame], rfl, hfirst⟩
  | interrupted outcome detail bytes => trivial

/-- **The step lemma**: bytes only move along, and every frame is read once. -/
theorem IsSound.step (h : s.IsSound sha maxFrameBytes) (hsends : s.SendsDescribable action)
    (hstep : s.step sha maxFrameBytes action = some s') : s'.IsSound sha maxFrameBytes := by
  obtain ⟨hdescribable, rest, hsent, hbytes, hstands⟩ := h
  unfold FrameStream.step at hstep
  cases action with
  | send frame =>
    obtain ⟨⟨hidle, -⟩, hsome⟩ := Option.ite_none_right_eq_some.mp hstep
    obtain rfl := Option.some.inj hsome
    rw [hidle, List.append_nil] at hbytes
    refine ⟨?_, rest ++ [frame], ?_, ?_, standsIn_append hstands frame⟩
    · intro other hother
      rcases List.mem_append.mp hother with hold | hnew
      · exact hdescribable other hold
      · rw [List.mem_singleton.mp hnew]
        exact hsends
    · show s.sent ++ [frame] = s.received ++ (rest ++ [frame])
      rw [hsent, List.append_assoc]
    · show s.place.bytes ++ (s.wire ++ encodeFrame sha frame) = _
      rw [List.flatMap_append, ← hbytes, List.append_assoc, List.flatMap_singleton]
  | accept count =>
    obtain ⟨-, hsome⟩ := Option.ite_none_right_eq_some.mp hstep
    obtain rfl := Option.some.inj hsome
    refine ⟨hdescribable, rest, hsent, ?_, hstands⟩
    show s.place.bytes ++ ((s.wire ++ s.outgoing.take count) ++ s.outgoing.drop count) = _
    rw [List.append_assoc s.wire, List.take_append_drop]
    exact hbytes
  | sendFails =>
    obtain ⟨-, hsome⟩ := Option.ite_none_left_eq_some.mp hstep
    obtain rfl := Option.some.inj hsome
    exact ⟨hdescribable, rest, hsent, hbytes, hstands⟩
  | deliver count =>
    obtain ⟨⟨-, hcount, hwire⟩, hsome⟩ := Option.ite_none_right_eq_some.mp hstep
    obtain rfl := Option.some.inj hsome
    have hrest : ∀ frame ∈ rest, frame.IsDescribable := fun frame hframe =>
      hdescribable frame (hsent ▸ List.mem_append_right _ hframe)
    obtain ⟨rest', hsplit, hcarries⟩ := ReadPlace.Carries.next hrest ⟨hbytes, hstands⟩
      (hcount.trans (Nat.min_le_left _ _)) hwire
    refine ⟨hdescribable, rest', ?_, hcarries⟩
    show s.sent = (s.received ++ _) ++ rest'
    rw [List.append_assoc, hsplit]
    exact hsent
  | recvFails outcome detail =>
    obtain ⟨-, hsome⟩ := Option.ite_none_right_eq_some.mp hstep
    obtain rfl := Option.some.inj hsome
    exact ⟨hdescribable, rest, hsent, hbytes, trivial⟩

/-- A new connection. -/
theorem isSound_new : IsSound sha maxFrameBytes {} where
  describable frame hframe := by cases hframe
  carries := by
    refine ⟨[], rfl, rfl, ?_⟩
    show ([] : List UInt8).length < wireHeaderBytes
    decide

/-- **What is read is what was sent**: in every run of one sender and one reader, with any pieces, the
frames that are read are the first of those that were sent, in order; a frame is only rejected when
its payload is above the ceiling of the reader; and when everything that was sent has been handed
over and has arrived, all the frames have been read. -/
theorem received_inOrder {actions : List StreamAction}
    (hmeets : StepsMeet (FrameStream.step sha maxFrameBytes) SendsDescribable {} actions)
    (hrun : run (FrameStream.step sha maxFrameBytes) {} actions = some s) :
    s.received <+: s.sent ∧
      (∀ detail bytes, s.place = .rejected detail bytes →
        ∃ frame, s.sent[s.received.length]? = some frame ∧
          maxFrameBytes.toNat < frame.payload.length) ∧
      (s.outgoing = [] → s.wire = [] → s.place.isReading = true → s.received = s.sent) := by
  obtain ⟨-, rest, hsent, hbytes, hstands⟩ :=
    hmeets.invariant (fun _ _ _ hsends hstep h => IsSound.step h hsends hstep) hrun isSound_new
  refine ⟨⟨rest, hsent.symm⟩, fun detail bytes hplace => ?_, fun houtgoing hwire hreading => ?_⟩
  · rw [hplace] at hstands
    obtain ⟨frame, later, rfl, hlarge⟩ := hstands
    refine ⟨frame, ?_, hlarge⟩
    rw [hsent, List.getElem?_append_right (Nat.le_refl _), Nat.sub_self]
    rfl
  · rw [houtgoing, hwire, List.append_nil, List.append_nil] at hbytes
    cases rest with
    | nil => rw [hsent, List.append_nil]
    | cons frame rest =>
      -- the next frame is longer than what the reader has of it
      have hlength := congrArg List.length hbytes
      have hsize := length_encodeFrame sha frame
      rw [List.flatMap_cons, List.length_append] at hlength
      cases hplace : s.place with
      | header bytes =>
        rw [hplace] at hstands hlength
        have hshort : bytes.length < wireHeaderBytes := hstands
        simp only [ReadPlace.bytes] at hlength
        omega
      | payload bytes size =>
        rw [hplace] at hstands hlength
        obtain ⟨hshort, other, later, heq, -, hwhole⟩ := hstands
        rw [← (List.cons.inj heq).1] at hwhole
        simp only [ReadPlace.bytes] at hlength
        omega
      | rejected detail bytes =>
        rw [hplace] at hreading
        cases hreading
      | interrupted outcome detail bytes =>
        rw [hplace] at hreading
        cases hreading

end Sound

/-- Two frames in pieces that end at no boundary of a header, a payload or a frame. -/
def pieces : List StreamAction :=
  [.send { type := .planRequest, payload := [1, 2, 3] }, .accept 50, .deliver 20, .accept 29,
    .send { type := .snapshotRequest }, .accept 1, .deliver 55, .accept 75, .deliver 1,
    .deliver 1, .deliver 2, .deliver 30, .deliver 46]

theorem received_inOrder_pieces : ∃ s,
    run (FrameStream.step constantHash 64) {} pieces = some s ∧ s.received <+: s.sent ∧
      (∀ detail bytes, s.place = .rejected detail bytes →
        ∃ frame, s.sent[s.received.length]? = some frame ∧
          (64 : UInt32).toNat < frame.payload.length) ∧
      (s.outgoing = [] → s.wire = [] → s.place.isReading = true → s.received = s.sent) := by
  have hmeets : StepsMeet (FrameStream.step constantHash 64) SendsDescribable {} pieces := by
    decide +kernel
  have hrun : (run (FrameStream.step constantHash 64) {} pieces).isSome = true := by decide +kernel
  obtain ⟨s, hs⟩ := Option.isSome_iff_exists.mp hrun
  exact ⟨s, hs, received_inOrder hmeets hs⟩

end FrameStream

end PathPlanner
