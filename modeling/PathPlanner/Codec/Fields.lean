import PathPlanner.Codec.Enumerations

/-!
# Named fields

The store and the protocol read the same fields with different texts for what can be wrong with
them. The readers take the texts as a parameter.

## Main definitions

* `FieldReasons`: the reasons to refuse a named field
* `FieldReasons.id`, `FieldReasons.strong`, `FieldReasons.enumeration`: the fields
* `FieldReasons.generations`, `FieldReasons.evidence`: the evidence of a plan

## Main results

* `FieldReasons.evidence_spells`: an evidence vector is read back exactly when it names a snapshot
-/

namespace PathPlanner

open Decoder

/-- The reasons to refuse a field, by its name. -/
structure FieldReasons (ε : Type) where
  truncatedId : String → ε
  nilId : String → ε
  missing : String → ε
  outOfRange : String → ε
  unknown : String → ℕ → ε

/-! ## Words -/

/-- The word of `SnapshotGenerations::Encode`. -/
def SnapshotGenerations.word (g : SnapshotGenerations) : List UInt8 :=
  littleEndian 8 g.topology.value ++ littleEndian 8 g.linkState.value ++
    littleEndian 8 g.ports.value ++ littleEndian 8 g.capabilities.value ++
    littleEndian 8 g.failureDomains.value ++ littleEndian 8 g.epoch.value ++
    littleEndian 8 g.policy.value ++ littleEndian 8 g.constraints.value

/-- The word of `EvidenceVector::Encode`. -/
def EvidenceVector.word (e : EvidenceVector) : List UInt8 :=
  e.snapshot.word ++ e.generations.word ++ WireEnum.word e.source ++
    littleEndian 8 e.publishSequence.value

namespace ByteWriter.Wrote

variable {w : ByteWriter} {ceiling : ℕ} {word : List UInt8}

theorem enumeration {E : Type} [WireEnum E] (h : w.Wrote ceiling word) (e : E) :
    (w.u32 (WireEnum.value e)).Wrote ceiling (word ++ WireEnum.word e) := h.u32 _

theorem generations (h : w.Wrote ceiling word) (g : SnapshotGenerations) :
    (g.encode w).Wrote ceiling (word ++ g.word) := by
  simp only [SnapshotGenerations.word, ← List.append_assoc]
  exact (((((((h.u64 g.topology.value).u64 g.linkState.value).u64 g.ports.value).u64
      g.capabilities.value).u64 g.failureDomains.value).u64 g.epoch.value).u64
      g.policy.value).u64 g.constraints.value

theorem evidence (h : w.Wrote ceiling word) (e : EvidenceVector) :
    (e.encode w).Wrote ceiling (word ++ e.word) := by
  simp only [EvidenceVector.word, ← List.append_assoc]
  exact (((h.id e.snapshot).generations e.generations).enumeration e.source).u64 e.publishSequence.value

end ByteWriter.Wrote

/-! ## Readers -/

namespace FieldReasons

variable {ε : Type} (r : FieldReasons ε) (name : String)

/-- `ReadId` and `DecodeId`: an identity that is not nil. -/
def id {Tag : Type} {n : ℕ} : Decoder ByteReader ε (FixedId Tag n) := do
  let id ← ByteReader.rawId (r.truncatedId name)
  ensure (id.isValid = true) (r.nilId name)
  pure id

/-- `ReadStrong` and `DecodeStrong`. -/
def strong {Tag : Type} {bound : ℕ} : Decoder ByteReader ε (StrongUInt Tag 64 bound) :=
  ByteReader.bounded 8 (r.missing name) (r.outOfRange name)

/-- `ReadEnumValue` and `DecodeEnumValue`. -/
def enumeration (E : Type) [WireEnum E] : Decoder ByteReader ε E :=
  ByteReader.enumeration E (r.missing name) (r.unknown name)

/-- `ReadGenerations` and `DecodeGenerations`. -/
def generations : Decoder ByteReader ε SnapshotGenerations := do
  let topology ← r.strong "topology generation"
  let linkState ← r.strong "link-state generation"
  let ports ← r.strong "port generation"
  let capabilities ← r.strong "capability generation"
  let failureDomains ← r.strong "failure-domain generation"
  let epoch ← r.strong "fabric epoch"
  let policy ← r.strong "policy generation"
  let constraints ← r.strong "constraint generation"
  pure { topology, linkState, ports, capabilities, failureDomains, epoch, policy, constraints }

/-- `ReadEvidence` and `DecodeEvidence`. -/
def evidence : Decoder ByteReader ε EvidenceVector := do
  let snapshot ← r.id "snapshot identity"
  let generations ← r.generations
  let source ← r.enumeration "evidence source" EvidenceSource
  let publishSequence ← r.strong "publish sequence"
  pure { snapshot, generations, source, publishSequence }

/-- **Identities** are read back when they are not nil. -/
theorem id_spells {Tag : Type} {n : ℕ} :
    Spells (r.id name) (fun id : FixedId Tag n => id.isValid = true) FixedId.word := by
  refine (ByteReader.rawId_spells (r.truncatedId name)).bind
    (K := fun a b => a.isValid = true ∧ b = a) (w := fun _ _ => []) (fun a _ => ?_) (fun a => ?_)
    fun a b _ h => ?_
  · refine .guard (fun ha b h => ha h.1) fun ha => ?_
    exact (Spells.pure a).congr (fun b => and_iff_right ha) fun _ _ => rfl
  · simp
  · rw [h.2, List.append_nil]

/-- **Quantities of 64 bits** are read back. -/
theorem strong_spells {Tag : Type} :
    Spells (r.strong name) (fun _ : UInt64Of Tag => True) (fun v => littleEndian 8 v.value) :=
  (ByteReader.bounded_spells (by norm_num) _ _).congr
    (fun v => iff_of_true trivial (value_le_max v)) fun _ _ => rfl

/-- **Enumerations** are read back when they are known. -/
theorem enumeration_spells (E : Type) [WireEnum E] :
    Spells (r.enumeration name E) WireEnum.IsKnown WireEnum.word :=
  ByteReader.enumeration_spells _ _

theorem generations_spells : Spells r.generations (fun _ => True) SnapshotGenerations.word := by
  refine .congr (.start <|
    (r.strong_spells "topology generation").field SnapshotGenerations.topology fun topology _ =>
    (r.strong_spells "link-state generation").field SnapshotGenerations.linkState fun linkState _ =>
    (r.strong_spells "port generation").field SnapshotGenerations.ports fun ports _ =>
    (r.strong_spells "capability generation").field SnapshotGenerations.capabilities
      fun capabilities _ =>
    (r.strong_spells "failure-domain generation").field SnapshotGenerations.failureDomains
      fun failureDomains _ =>
    (r.strong_spells "fabric epoch").field SnapshotGenerations.epoch fun epoch _ =>
    (r.strong_spells "policy generation").field SnapshotGenerations.policy fun policy _ =>
    (r.strong_spells "constraint generation").field SnapshotGenerations.constraints fun constraints _ =>
    .done (Q := fun _ => True) fun g => ?_) (fun g => ?_) fun g _ => ?_
  · cases g
    simp only [SnapshotGenerations.mk.injEq, true_and, and_true, and_assoc]
  · simp only [and_true]
  · simp only [SnapshotGenerations.word, List.append_assoc, List.append_nil]

/-- **Evidence** is read back when it names a snapshot. -/
theorem evidence_spells :
    Spells r.evidence (fun e => e.snapshot.isValid = true) EvidenceVector.word := by
  refine .congr (.start <|
    (r.id_spells "snapshot identity").field EvidenceVector.snapshot fun snapshot _ =>
    r.generations_spells.field EvidenceVector.generations fun generations _ =>
    (r.enumeration_spells "evidence source" EvidenceSource).field EvidenceVector.source
      fun source _ =>
    (r.strong_spells "publish sequence").field EvidenceVector.publishSequence
      fun publishSequence _ =>
    .done (Q := fun _ => True) fun e => ?_) (fun e => ?_) fun e _ => ?_
  · cases e
    simp only [EvidenceVector.mk.injEq, true_and, and_true, and_assoc]
  · simp only [EvidenceSource.isKnown, and_true]
  · simp only [EvidenceVector.word, List.append_assoc, List.append_nil]

end FieldReasons

end PathPlanner
