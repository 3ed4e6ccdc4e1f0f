import PathPlanner.Codec.Fields
import PathPlanner.Coordinator.Messages

/-!
# Decoders of the protocol

A decoder of the protocol returns a status, may set a text, and puts what it decoded into an output
parameter.

## Main definitions

* `WireRefusal`: why a decoder refuses its bytes
* `WireOutcome`, `wireOutcome`: what a decoder leaves behind
* `IsStrict`: the decoder accepts one spelling of each acceptable value, and nothing else
* `wireReasons`, `EncodedBy`, `readPayload`: the parts of a payload codec

## Main results

* `isStrict_wireOutcome`: a decoder that accepts exactly the encodings is strict
-/

namespace PathPlanner

/-- Why a decoder refuses: a status that is not OK, and a text where the decoder sets one. -/
structure WireRefusal where
  status : WireStatus
  detail : Option String
  ne_ok : status ≠ .ok := by decide

/-- Malformed bytes. -/
def malformed (detail : String) : WireRefusal := ⟨.malformed, some detail, by decide⟩

theorem trailingBytes_ne_ok : WireStatus.trailingBytes ≠ .ok := by decide

/-- What a decoder leaves behind: the status, the text and the output parameter. -/
structure WireOutcome (α : Type) where
  status : WireStatus
  detail : String
  out : α

/-- What a decoder leaves behind of the text and the output parameter that it was given; none when
it accesses anything outside its bytes. -/
def wireOutcome {α : Type} (detail : String) (out : α) :
    Except (Stop WireRefusal) α → Option (WireOutcome α)
  | .ok value => some ⟨.ok, detail, value⟩
  | .error (.refused refusal) => some ⟨refusal.status, refusal.detail.getD detail, out⟩
  | .error .fault => none

/-- **A strict codec**: every acceptable value has one encoding, the decoder accepts it as that value
and accepts nothing else, it stays inside its bytes, and a rejection leaves the output alone. -/
structure IsStrict {α : Type} (acceptable : α → Prop) (Encodes : α → List UInt8 → Prop)
    (decode : List UInt8 → String → α → Option (WireOutcome α)) : Prop where
  existsUnique_encoding : ∀ value, acceptable value → ∃! bytes, Encodes value bytes
  decode_encoding : ∀ value bytes detail out, acceptable value → Encodes value bytes →
    decode bytes detail out = some ⟨.ok, detail, value⟩
  encoding_of_decode : ∀ bytes detail out outcome, decode bytes detail out = some outcome →
    outcome.status = .ok → acceptable outcome.out ∧ Encodes outcome.out bytes
  inBounds : ∀ bytes detail out, decode bytes detail out ≠ none
  unchanged : ∀ bytes detail out outcome, decode bytes detail out = some outcome →
    outcome.status ≠ .ok → outcome.out = out

/-- What was accepted was decoded. -/
theorem eq_ok_of_status_eq_ok {α : Type} {detail : String} {out : α}
    {e : Except (Stop WireRefusal) α} {outcome : WireOutcome α}
    (h : wireOutcome detail out e = some outcome) (hstatus : outcome.status = .ok) :
    e = .ok outcome.out := by
  match e, h with
  | .ok value, h =>
    obtain rfl := Option.some.inj h
    rfl
  | .error (.refused refusal), h =>
    obtain rfl := Option.some.inj h
    exact absurd hstatus refusal.ne_ok

/-- A rejection leaves the output alone. -/
theorem out_eq_of_status_ne_ok {α : Type} {detail : String} {out : α}
    {e : Except (Stop WireRefusal) α} {outcome : WireOutcome α}
    (h : wireOutcome detail out e = some outcome) (hstatus : outcome.status ≠ .ok) :
    outcome.out = out := by
  match e, h with
  | .ok value, h =>
    obtain rfl := Option.some.inj h
    exact absurd rfl hstatus
  | .error (.refused refusal), h =>
    obtain rfl := Option.some.inj h
    rfl

/-- **A decoder that accepts exactly the encodings** of the acceptable values is strict. -/
theorem isStrict_wireOutcome {α : Type} {acceptable : α → Prop} {Encodes : α → List UInt8 → Prop}
    {decode : List UInt8 → Except (Stop WireRefusal) α}
    (hencoding : ∀ value, acceptable value → ∃! bytes, Encodes value bytes)
    (hok : ∀ bytes value, decode bytes = .ok value ↔ acceptable value ∧ Encodes value bytes)
    (hfault : ∀ bytes, decode bytes ≠ .error .fault) :
    IsStrict acceptable Encodes fun bytes detail out => wireOutcome detail out (decode bytes) where
  existsUnique_encoding := hencoding
  decode_encoding value bytes detail out hvalue hbytes := by
    rw [(hok bytes value).mpr ⟨hvalue, hbytes⟩]
    rfl
  encoding_of_decode bytes detail out outcome h hstatus :=
    (hok bytes _).mp (eq_ok_of_status_eq_ok h hstatus)
  inBounds bytes detail out h := by
    match hdecode : decode bytes with
    | .ok value =>
      rw [hdecode] at h
      cases h
    | .error (.refused refusal) =>
      rw [hdecode] at h
      cases h
    | .error .fault => exact hfault bytes hdecode
  unchanged bytes detail out outcome h hstatus := out_eq_of_status_ne_ok h hstatus

/-! ## Payloads -/

/-- The texts of the field decoders of the protocol. -/
def wireReasons : FieldReasons WireRefusal where
  truncatedId name := malformed (name ++ ": truncated identifier")
  nilId name := malformed (name ++ ": nil identifier rejected")
  missing name := malformed (name ++ ": missing value")
  outOfRange name := malformed (name ++ ": value out of range")
  unknown name value := malformed (name ++ ": unknown enumeration value " ++ value.repr)

/-- Malformed bytes, where the text is left as it was. -/
def malformedSilently : WireRefusal := ⟨.malformed, none, by decide⟩

/-- The bytes are what the encoder writes of the value when it has room. -/
def EncodedBy {α : Type} (encode : ByteWriter → α → ByteWriter) (value : α) (bytes : List UInt8) :
    Prop :=
  ∃ ceiling, (encode (.new ceiling) value).overflowed = false ∧
    (encode (.new ceiling) value).data = bytes

/-- An encoder that appends words writes the word, and nothing else, when it has room. -/
theorem encodedBy_iff {α : Type} {encode : ByteWriter → α → ByteWriter} {word : α → List UInt8}
    {value : α} {bytes : List UInt8}
    (h : ∀ ceiling, (encode (.new ceiling) value).Wrote ceiling (word value)) :
    EncodedBy encode value bytes ↔ word value = bytes := by
  constructor
  · rintro ⟨ceiling, hroom, rfl⟩
    exact ((h ceiling).data_eq hroom).symm
  · rintro rfl
    have hroom := (h (word value).length).overflowed_eq_false_iff.mpr le_rfl
    exact ⟨_, hroom, (h _).data_eq hroom⟩

/-- A payload that is read to its end. -/
def readPayload {α : Type} (d : Decoder ByteReader WireRefusal α) (trailing : String)
    (bytes : List UInt8) : Except (Stop WireRefusal) α := do
  let (value, reader) ← d.run (.new bytes)
  if ¬ reader.atEnd then
    throw (.refused ⟨.trailingBytes, some trailing, trailingBytes_ne_ok⟩)
  pure value

section readPayload

variable {α : Type} {d : Decoder ByteReader WireRefusal α} {P : α → Prop} {word : α → List UInt8}
  {trailing : String} {bytes : List UInt8}

theorem readPayload_eq_ok_iff (h : Decoder.Spells d P word) {value : α} :
    readPayload d trailing bytes = .ok value ↔ P value ∧ word value = bytes := by
  have hend := h.run_atEnd_iff (s := ByteReader.new bytes) (a := value)
  rw [ByteReader.rest_new, eq_comm (a := bytes)] at hend
  rw [← hend]
  unfold readPayload
  cases hd : d.run (.new bytes) with
  | error stop =>
    constructor
    · intro hstop
      cases hstop
    · rintro ⟨reader, hreader, -⟩
      cases hreader
  | ok result =>
    obtain ⟨value', reader⟩ := result
    simp only [Decoder.ok_bind, ByteReader.atEnd_iff]
    by_cases hrest : Source.rest reader = []
    · rw [if_neg (not_not.mpr hrest)]
      constructor
      · intro hvalue
        obtain rfl := Except.ok.inj hvalue
        exact ⟨reader, rfl, hrest⟩
      · rintro ⟨reader', hreader, -⟩
        obtain ⟨rfl, -⟩ := Prod.mk.inj (Except.ok.inj hreader)
        rfl
    · rw [if_pos hrest]
      constructor
      · intro hstop
        cases hstop
      · rintro ⟨reader', hreader, hrest'⟩
        obtain ⟨-, rfl⟩ := Prod.mk.inj (Except.ok.inj hreader)
        exact absurd hrest' hrest

theorem readPayload_ne_fault (h : Decoder.Spells d P word) :
    readPayload d trailing bytes ≠ .error .fault := by
  unfold readPayload
  cases hd : d.run (.new bytes) with
  | error stop =>
    intro hstop
    obtain rfl := Except.error.inj hstop
    exact h.safe _ hd
  | ok result =>
    simp only [Decoder.ok_bind]
    split_ifs <;> intro hstop <;> cases hstop

end readPayload

end PathPlanner
