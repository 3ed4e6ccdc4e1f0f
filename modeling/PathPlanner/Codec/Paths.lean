import PathPlanner.Codec.Fields
import PathPlanner.Plan.Result

/-!
# Paths and costs on the wire

The store and the protocol read paths and costs alike, again with different texts. The nodes of a
path are not written: they are the source and the targets of the hops. The operational evidence of a
hop is not written either, so a path is read back without it.

## Main definitions

* `CandidatePath.word`, `PathCost.word`: the words of a path and of a cost
* `CandidatePath.structural`: a path without operational evidence
* `PathReasons`, `readPath`, `CostReasons`, `readCost`: the readers
* `CandidatePath.IsReadable`, `PathCost.IsCoherent`: what is read back

## Main results

* `readPath_spells`, `readCost_spells`: exactly the readable paths and the coherent costs are read
  back
-/

namespace PathPlanner

open Decoder

/-! ## Words -/

/-- The word of a hop in `CandidatePath::Encode`. -/
def PathHop.word (hop : PathHop) : List UInt8 :=
  hop.link.word ++ hop.source.word ++ hop.target.word ++ hop.fromPort.word ++ hop.toPort.word ++
    WireEnum.word hop.layer ++ WireEnum.word hop.relationship ++
    littleEndian 8 hop.structuralGeneration.value ++ littleEndian 4 hop.staticCost.value

/-- The word of `CandidatePath::Encode`. -/
def CandidatePath.word (path : CandidatePath) : List UInt8 :=
  littleEndian 4 pathEncodingVersion ++ path.source.word ++ path.destination.word ++
    WireEnum.word path.layer ++ listWord PathHop.word path.hops

/-- The word of `WriteCost` and `EncodeCost`. -/
def PathCost.word (cost : PathCost) : List UInt8 :=
  littleEndian 8 cost.total.value ++ littleEndian 8 cost.hopsCost.value ++
    littleEndian 8 cost.staticCost.value ++ littleEndian 8 cost.degradedPenalty.value ++
    littleEndian 8 cost.localityPenalty.value ++ littleEndian 4 cost.hops.value ++
    littleEndian 4 cost.degradedHops ++ littleEndian 4 cost.localityBreaches

/-- `WriteCost` and `EncodeCost`. -/
def PathCost.encode (cost : PathCost) (writer : ByteWriter) : ByteWriter :=
  let writer := (writer.u64 cost.total.value).u64 cost.hopsCost.value
  let writer := (writer.u64 cost.staticCost.value).u64 cost.degradedPenalty.value
  let writer := (writer.u64 cost.localityPenalty.value).u32 cost.hops.value
  (writer.u32 cost.degradedHops).u32 cost.localityBreaches

namespace ByteWriter.Wrote

variable {w : ByteWriter} {ceiling : ℕ} {word : List UInt8}

theorem path (h : w.Wrote ceiling word) (p : CandidatePath) :
    (p.encode w).Wrote ceiling (word ++ p.word) := by
  simp only [CandidatePath.word, ← List.append_assoc]
  refine ((((h.u32 _).id p.source).id p.destination).enumeration p.layer).list
    fun hop _ w word hw => ?_
  simp only [PathHop.word, ← List.append_assoc]
  exact ((((((((hw.id hop.link).id hop.source).id hop.target).id hop.fromPort).id
    hop.toPort).enumeration hop.layer).enumeration hop.relationship).u64
    hop.structuralGeneration.value).u32 hop.staticCost.value

theorem cost (h : w.Wrote ceiling word) (c : PathCost) :
    (c.encode w).Wrote ceiling (word ++ c.word) := by
  simp only [PathCost.word, ← List.append_assoc]
  exact (((((((h.u64 c.total.value).u64 c.hopsCost.value).u64 c.staticCost.value).u64
    c.degradedPenalty.value).u64 c.localityPenalty.value).u32 c.hops.value).u32
    c.degradedHops).u32 c.localityBreaches

end ByteWriter.Wrote

/-! ## Structural paths -/

/-- A hop without operational evidence. -/
def PathHop.structural (hop : PathHop) : PathHop :=
  { hop with linkState := .unknown, degraded := false }

/-- A path without operational evidence. -/
def CandidatePath.structural (path : CandidatePath) : CandidatePath :=
  { path with hops := path.hops.map PathHop.structural }

@[simp] theorem CandidatePath.word_structural (path : CandidatePath) :
    path.structural.word = path.word := by
  have hlist (hops : List PathHop) :
      (hops.map PathHop.structural).flatMap PathHop.word = hops.flatMap PathHop.word := by
    rw [List.flatMap_map]
    rfl
  simp only [word, structural, listWord, List.length_map, hlist]

theorem PathHop.length_word (hop : PathHop) : hop.word.length = 100 := by
  simp [word, WireEnum.word]

/-- The ceiling of `CandidatePath::Digest` is never reached. -/
theorem CandidatePath.digest_eq (sha : List UInt8 → Sha256Digest) (path : CandidatePath) :
    path.digest sha = sha path.word := by
  have hwrote : (path.encode (ByteWriter.new (256 + path.hops.length * 128))).Wrote
      (256 + path.hops.length * 128) path.word := (ByteWriter.Wrote.new _).path path
  have hcount := length_varGroups_le 9 path.hops.length
  have hhops : (path.hops.flatMap PathHop.word).length = path.hops.length * 100 := by
    rw [List.length_flatMap, List.map_congr_left fun hop _ => hop.length_word, List.map_const',
      List.sum_replicate, smul_eq_mul]
  have hfits : path.word.length ≤ 256 + path.hops.length * 128 := by
    simp only [word, listWord, varWord, WireEnum.word, List.length_append, length_littleEndian,
      FixedId.length_word, hhops]
    omega
  have hover := hwrote.overflowed_eq_false_iff.mpr hfits
  unfold digest
  simp only [hover, Bool.false_eq_true, if_false, hwrote.data_eq hover]

@[simp] theorem CandidatePath.id_structural (sha : List UInt8 → Sha256Digest)
    (path : CandidatePath) : path.structural.id sha = path.id sha := by
  unfold CandidatePath.id
  rw [digest_eq, digest_eq, word_structural]

/-! ## Semantic encodings -/

/-- The word of a candidate in `PathPlan::EncodeSemantic`. -/
def Candidate.semanticWord (candidate : Candidate) : List UInt8 :=
  candidate.id.word ++ littleEndian 8 candidate.cost.total.value ++
    littleEndian 4 candidate.cost.hops.value ++ littleEndian 8 candidate.cost.staticCost.value ++
    littleEndian 8 candidate.cost.degradedPenalty.value ++
    littleEndian 8 candidate.cost.localityPenalty.value ++ littleEndian 4 candidate.rank.value

/-- The word of `PathPlan::EncodeSemantic`. -/
def PathPlan.semanticWord (plan : PathPlan) : List UInt8 :=
  littleEndian 4 planningRuleVersion ++ littleEndian 4 planDigestSchemeVersion ++
    plan.request.word ++ plan.source.word ++ plan.destination.word ++ WireEnum.word plan.layer ++
    WireEnum.word plan.status ++ boolWord plan.diagnosticMode ++ plan.evidence.word ++
    littleEndian 8 plan.policyGeneration.value ++ plan.constraintSet.word ++
    littleEndian 8 plan.constraintGeneration.value ++
    listWord Candidate.semanticWord plan.candidates

theorem PathPlan.wrote_encodeSemantic {w : ByteWriter} {ceiling : ℕ} {word : List UInt8}
    (h : w.Wrote ceiling word) (plan : PathPlan) :
    (plan.encodeSemantic w).Wrote ceiling (word ++ plan.semanticWord) := by
  simp only [semanticWord, ← List.append_assoc]
  refine ByteWriter.Wrote.list (fun candidate _ w word hw => ?_) ?_
  · simp only [Candidate.semanticWord, ← List.append_assoc]
    exact ((((((hw.id candidate.id).u64 _).u32 _).u64 _).u64 _).u64 _).u32 _
  · exact (((((((((((h.u32 _).u32 _).id plan.request).id plan.source).id
      plan.destination).enumeration plan.layer).enumeration plan.status).bool
      plan.diagnosticMode).evidence plan.evidence).u64 _).id plan.constraintSet).u64 _

/-- The ceiling of `PathPlan::ComputeSemanticDigest` is never reached. -/
theorem PathPlan.computeSemanticDigest_eq (sha : List UInt8 → Sha256Digest) (plan : PathPlan) :
    plan.computeSemanticDigest sha = sha plan.semanticWord := by
  have hwrote := wrote_encodeSemantic
    (ByteWriter.Wrote.new (4096 + plan.candidates.length * 256)) plan
  have hcount := length_varGroups_le 9 plan.candidates.length
  have hcandidates : (plan.candidates.flatMap Candidate.semanticWord).length =
      plan.candidates.length * 56 := by
    have hlength (candidate : Candidate) : candidate.semanticWord.length = 56 := by
      simp [Candidate.semanticWord]
    rw [List.length_flatMap, List.map_congr_left fun candidate _ => hlength candidate,
      List.map_const', List.sum_replicate, smul_eq_mul]
  have hfits : plan.semanticWord.length ≤ 4096 + plan.candidates.length * 256 := by
    simp only [semanticWord, EvidenceVector.word, SnapshotGenerations.word, listWord, varWord,
      WireEnum.word, List.length_append, length_littleEndian, FixedId.length_word, length_boolWord,
      hcandidates]
    omega
  have hover := hwrote.overflowed_eq_false_iff.mpr hfits
  unfold computeSemanticDigest
  simp only [hover, Bool.false_eq_true, if_false, hwrote.data_eq hover]
  rfl

/-! ## Reading -/

/-- The texts of a path reader. -/
structure PathReasons (ε : Type) where
  version : ε
  hopCount : ε
  sourceName : String
  targetName : String
  staticCost : ε
  wellFormed : ε
  simple : ε

/-- The texts of a cost reader. -/
structure CostReasons (ε : Type) where
  truncated : ε
  hops : ε
  overflow : ε
  sum : ε
  counts : ε

section Readers

variable {ε : Type} (r : FieldReasons ε)

/-- A hop of `ReadPath` and `DecodePath`. -/
def readHop (texts : PathReasons ε) : Decoder ByteReader ε PathHop := do
  let link ← r.id "hop link"
  let source ← r.id texts.sourceName
  let target ← r.id texts.targetName
  let fromPort ← r.id "hop source port"
  let toPort ← r.id "hop destination port"
  let layer ← r.enumeration "hop layer" PathLayer
  let relationship ← r.enumeration "hop relationship" RelationshipType
  let structuralGeneration ← r.strong "hop structural generation"
  let staticCost ← ByteReader.quantity 4 texts.staticCost
  pure { link, source, target, fromPort, toPort, layer, relationship, structuralGeneration,
         staticCost, linkState := .unknown }

/-- `ReadPath` and `DecodePath`. -/
def readPath (texts : PathReasons ε) (limits : ResourceLimits) :
    Decoder ByteReader ε CandidatePath := do
  let encodingVersion ← ByteReader.uint 4 texts.version
  ensure (encodingVersion = pathEncodingVersion) texts.version
  let source ← r.id "path source"
  let destination ← r.id "path destination"
  let layer ← r.enumeration "path layer" PathLayer
  let hops ← ByteReader.counted limits.maxHops.toNat texts.hopCount texts.hopCount fun _ =>
    readHop r texts
  let path : CandidatePath :=
    { source, destination, layer, hops, nodes := source :: hops.map PathHop.target }
  ensure (path.isWellFormed = true) texts.wellFormed
  ensure (path.isSimple = true) texts.simple
  pure path

/-- `ReadCost` and `DecodeCost`. -/
def readCost (texts : CostReasons ε) : Decoder ByteReader ε PathCost := do
  let total ← ByteReader.quantity 8 texts.truncated
  let hopsCost ← ByteReader.quantity 8 texts.truncated
  let staticCost ← ByteReader.quantity 8 texts.truncated
  let degradedPenalty ← ByteReader.quantity 8 texts.truncated
  let localityPenalty ← ByteReader.quantity 8 texts.truncated
  let hops : HopCount ← ByteReader.quantity 4 texts.truncated
  let degradedHops ← ByteReader.uint 4 texts.truncated
  let localityBreaches ← ByteReader.uint 4 texts.truncated
  ensure ((StrongUInt.tryFrom hops).isSome = true) texts.hops
  let sum := checkedAdd hopsCost staticCost
  ensure (sum.isSome = true) texts.overflow
  let sum := sum.bind (checkedAdd · degradedPenalty)
  ensure (sum.isSome = true) texts.overflow
  let sum := sum.bind (checkedAdd · localityPenalty)
  ensure (sum = some total) texts.sum
  ensure (degradedHops ≤ hops.value ∧ localityBreaches ≤ hops.value) texts.counts
  pure { hopsCost, staticCost, degradedPenalty, localityPenalty, total, hops, degradedHops,
         localityBreaches }

end Readers

/-! ## What is read back -/

/-- A hop that names everything and carries no operational evidence. -/
structure PathHop.IsReadable (hop : PathHop) : Prop where
  link_isValid : hop.link.isValid = true
  source_isValid : hop.source.isValid = true
  target_isValid : hop.target.isValid = true
  fromPort_isValid : hop.fromPort.isValid = true
  toPort_isValid : hop.toPort.isValid = true
  layer_isKnown : WireEnum.IsKnown hop.layer
  structural_eq : hop.structural = hop

/-- A well-formed simple path of readable hops. -/
structure CandidatePath.IsReadable (maxHops : ℕ) (path : CandidatePath) : Prop where
  source_isValid : path.source.isValid = true
  destination_isValid : path.destination.isValid = true
  layer_isKnown : WireEnum.IsKnown path.layer
  hops_le : path.hops.length ≤ maxHops
  hops_isReadable : ∀ hop ∈ path.hops, hop.IsReadable
  nodes_eq : path.nodes = path.source :: path.hops.map PathHop.target
  isWellFormed : path.isWellFormed = true
  isSimple : path.isSimple = true

/-- A cost whose total is the exact sum of its components, with counts of hops. -/
structure PathCost.IsCoherent (cost : PathCost) : Prop where
  hops_le : cost.hops.value ≤ maxHopCount
  total_eq : cost.total.value = cost.hopsCost.value + cost.staticCost.value +
    cost.degradedPenalty.value + cost.localityPenalty.value
  degradedHops_le : cost.degradedHops ≤ cost.hops.value
  localityBreaches_le : cost.localityBreaches ≤ cost.hops.value

section Spells

variable {ε : Type} (r : FieldReasons ε)

theorem readHop_spells (texts : PathReasons ε) :
    Spells (readHop r texts) PathHop.IsReadable PathHop.word := by
  refine .congr (.start <|
    (r.id_spells "hop link").field PathHop.link fun link _ =>
    (r.id_spells texts.sourceName).field PathHop.source fun source _ =>
    (r.id_spells texts.targetName).field PathHop.target fun target _ =>
    (r.id_spells "hop source port").field PathHop.fromPort fun fromPort _ =>
    (r.id_spells "hop destination port").field PathHop.toPort fun toPort _ =>
    (r.enumeration_spells "hop layer" PathLayer).field PathHop.layer fun layer _ =>
    (r.enumeration_spells "hop relationship" RelationshipType).field PathHop.relationship
      fun relationship _ =>
    (r.strong_spells "hop structural generation").field PathHop.structuralGeneration
      fun structuralGeneration _ =>
    (ByteReader.quantity_spells (by norm_num) texts.staticCost).field PathHop.staticCost
      fun staticCost _ =>
    .done (Q := fun hop : PathHop => hop.structural = hop) fun hop => ?_) (fun hop => ?_)
    fun hop _ => ?_
  · cases hop
    simp only [PathHop.structural, PathHop.mk.injEq, true_and, and_assoc]
    grind
  · constructor
    · rintro ⟨h₁, h₂, h₃, h₄, h₅, h₆, h₇⟩
      exact ⟨h₁, h₂, h₃, h₄, h₅, h₆, RelationshipType.isKnown _, trivial, trivial, h₇⟩
    · rintro ⟨h₁, h₂, h₃, h₄, h₅, h₆, -, -, -, h₇⟩
      exact ⟨h₁, h₂, h₃, h₄, h₅, h₆, h₇⟩
  · simp only [PathHop.word, List.append_assoc, List.append_nil]

/-- The path that the fields of a path determine. -/
def CandidatePath.rebuilt (path : CandidatePath) : CandidatePath :=
  { path with nodes := path.source :: path.hops.map PathHop.target }

/-- **Paths**: exactly the readable ones are read back. -/
theorem readPath_spells (texts : PathReasons ε) (limits : ResourceLimits) :
    Spells (readPath r texts limits) (CandidatePath.IsReadable limits.maxHops.toNat)
      CandidatePath.word := by
  refine .congr (.start <|
    .literal pathEncodingVersion (ByteReader.uint_spells 4 texts.version) (by decide)
      (fun _ => Iff.rfl) texts.version <|
    (r.id_spells "path source").field CandidatePath.source fun source _ =>
    (r.id_spells "path destination").field CandidatePath.destination fun destination _ =>
    (r.enumeration_spells "path layer" PathLayer).field CandidatePath.layer fun layer _ =>
    (ByteReader.counted_spells_of_const (readHop_spells r texts) (ByteReader.ceiling_lt _)
      texts.hopCount texts.hopCount).field CandidatePath.hops fun hops _ =>
    .ensure (fun path => path.rebuilt.isWellFormed = true) ?_ fun _ =>
    .ensure (fun path => path.rebuilt.isSimple = true) ?_ fun _ =>
    .done (Q := fun path : CandidatePath => path.rebuilt = path) fun path => ?_) (fun path => ?_)
    fun path _ => ?_
  · rintro path ⟨⟨⟨⟨-, rfl⟩, rfl⟩, rfl⟩, rfl⟩
    exact Iff.rfl
  · rintro path ⟨⟨⟨⟨-, rfl⟩, rfl⟩, rfl⟩, rfl⟩
    exact Iff.rfl
  · cases path
    simp only [CandidatePath.rebuilt, CandidatePath.mk.injEq, true_and, and_assoc]
    grind
  · constructor
    · intro h
      have hrebuilt : path.rebuilt = path := by
        unfold CandidatePath.rebuilt
        rw [← h.nodes_eq]
      refine ⟨h.source_isValid, h.destination_isValid, h.layer_isKnown,
        ⟨h.hops_le, h.hops_isReadable⟩, ?_, ?_, hrebuilt⟩
      · rw [hrebuilt]
        exact h.isWellFormed
      · rw [hrebuilt]
        exact h.isSimple
    · rintro ⟨h₁, h₂, h₃, ⟨h₄, h₅⟩, h₆, h₇, hrebuilt⟩
      rw [hrebuilt] at h₆ h₇
      refine ⟨h₁, h₂, h₃, h₄, h₅, ?_, h₆, h₇⟩
      exact (congrArg CandidatePath.nodes hrebuilt).symm
  · simp only [CandidatePath.word, List.append_assoc, List.append_nil]

/-- The checked sum of the components is their exact sum. -/
theorem checkedSum_eq_some_iff {a b c d total : CostValue} :
    ((checkedAdd a b).bind (checkedAdd · c)).bind (checkedAdd · d) = some total ↔
      total.value = a.value + b.value + c.value + d.value := by
  simp only [Option.bind_eq_some_iff, checkedAdd_eq_some_iff]
  constructor
  · rintro ⟨abc, ⟨ab, hab, habc⟩, htotal⟩
    omega
  · intro h
    have htotal := total.lt
    exact ⟨⟨a.value + b.value + c.value, by omega⟩, ⟨⟨a.value + b.value, by omega⟩, rfl, rfl⟩, h.symm⟩

theorem isSome_tryFrom_iff {Tag : Type} {width bound : ℕ} {value : StrongUInt Tag width bound} :
    (StrongUInt.tryFrom value).isSome = true ↔ value.value ≤ bound := by
  unfold StrongUInt.tryFrom
  split_ifs with h
  · simpa using h
  · simpa using h

/-- **Costs**: exactly the coherent ones are read back. -/
theorem readCost_spells (texts : CostReasons ε) :
    Spells (readCost texts) PathCost.IsCoherent PathCost.word := by
  refine .congr (.start <|
    (ByteReader.quantity_spells (by norm_num) texts.truncated).field PathCost.total fun total _ =>
    (ByteReader.quantity_spells (by norm_num) texts.truncated).field PathCost.hopsCost
      fun hopsCost _ =>
    (ByteReader.quantity_spells (by norm_num) texts.truncated).field PathCost.staticCost
      fun staticCost _ =>
    (ByteReader.quantity_spells (by norm_num) texts.truncated).field PathCost.degradedPenalty
      fun degradedPenalty _ =>
    (ByteReader.quantity_spells (by norm_num) texts.truncated).field PathCost.localityPenalty
      fun localityPenalty _ =>
    (ByteReader.quantity_spells (by norm_num) texts.truncated).field PathCost.hops fun hops _ =>
    (ByteReader.uint_spells 4 texts.truncated).field PathCost.degradedHops fun degradedHops _ =>
    (ByteReader.uint_spells 4 texts.truncated).field PathCost.localityBreaches
      fun localityBreaches _ =>
    .ensure (fun cost : PathCost => (StrongUInt.tryFrom cost.hops).isSome = true) ?_ fun _ =>
    .ensure (fun cost : PathCost => (checkedAdd cost.hopsCost cost.staticCost).isSome = true) ?_
      fun _ =>
    .ensure (fun cost : PathCost => ((checkedAdd cost.hopsCost cost.staticCost).bind
      (checkedAdd · cost.degradedPenalty)).isSome = true) ?_ fun _ =>
    .ensure (fun cost : PathCost => ((checkedAdd cost.hopsCost cost.staticCost).bind
      (checkedAdd · cost.degradedPenalty)).bind (checkedAdd · cost.localityPenalty) =
        some cost.total) ?_ fun _ =>
    .ensure (fun cost : PathCost => cost.degradedHops ≤ cost.hops.value ∧
      cost.localityBreaches ≤ cost.hops.value) ?_ fun _ =>
    .done (Q := fun _ => True) fun cost => ?_) (fun cost => ?_) fun cost _ => ?_
  iterate 5
    · rintro cost ⟨⟨⟨⟨⟨⟨⟨⟨-, rfl⟩, rfl⟩, rfl⟩, rfl⟩, rfl⟩, rfl⟩, rfl⟩, rfl⟩
      exact Iff.rfl
  · cases cost
    simp only [PathCost.mk.injEq, true_and, and_true, and_assoc]
    grind
  · rw [isSome_tryFrom_iff, checkedSum_eq_some_iff]
    constructor
    · intro h
      have hsum := checkedSum_eq_some_iff.mpr h.total_eq
      obtain ⟨three, hthree, -⟩ := Option.bind_eq_some_iff.mp hsum
      obtain ⟨two, htwo, -⟩ := Option.bind_eq_some_iff.mp hthree
      have hsmall : cost.hops.value < 256 ^ 4 := cost.hops.lt
      exact ⟨trivial, trivial, trivial, trivial, trivial, trivial,
        h.degradedHops_le.trans_lt hsmall, h.localityBreaches_le.trans_lt hsmall, h.hops_le,
        by rw [htwo]; rfl, by rw [hthree]; rfl, h.total_eq,
        ⟨h.degradedHops_le, h.localityBreaches_le⟩, trivial⟩
    · rintro ⟨-, -, -, -, -, -, -, -, hhops, -, -, htotal, ⟨hdegraded, hbreaches⟩, -⟩
      exact ⟨hhops, htotal, hdegraded, hbreaches⟩
  · simp only [PathCost.word, List.append_assoc, List.append_nil]

end Spells

end PathPlanner
