import PathPlanner.Codec.Fields
import PathPlanner.Library.SelfDelimiting
import PathPlanner.Snapshot.Representation

/-!
# The encoding of a snapshot

The digest of a snapshot is taken from its encoding, so the encoding has to tell snapshots of
different content apart. It has no tags: every record is the concatenation of fields of fixed length
and of lists behind their length, and every such field is self-delimiting.

## Main definitions

* `SnapshotRecords.word`: the word of a snapshot
* `SnapshotRecords.Encodes`: the bytes that `Encode` produces
* `SnapshotRecords.SameContent`: snapshots that agree on what they publish

## Main results

* `SnapshotRecords.encode_wrote`: the encoding writes the word
* `SnapshotRecords.sameContent_of_word_eq`: the word determines the content
* `FabricSnapshotBuilder.build_encoding_injective`: **the encoding tells content apart**
-/

namespace PathPlanner

/-! ## Words of fields -/

section Fields

variable {ρ : Type} {P : ρ → Prop}

/-- Every list of bytes can be read. -/
theorem exists_rest_eq (l : List UInt8) : ∃ r : ByteReader, Source.rest r = l :=
  ⟨.new l, rfl⟩

theorem littleEndian_selfDelimiting (count : ℕ) :
    SelfDelimiting (· < 256 ^ count) (littleEndian count) :=
  (ByteReader.uint_spells count ()).selfDelimiting exists_rest_eq

theorem varWord_selfDelimiting : SelfDelimiting (· < 2 ^ 64) varWord :=
  (ByteReader.varU64_spells ()).selfDelimiting exists_rest_eq

theorem boolWord_selfDelimiting : SelfDelimiting (fun _ => True) boolWord :=
  (ByteReader.bool_spells ()).selfDelimiting exists_rest_eq

theorem FixedId.word_selfDelimiting {Tag : Type} {n : ℕ} :
    SelfDelimiting (fun _ => True) (FixedId.word : FixedId Tag n → List UInt8) :=
  (ByteReader.rawId_spells ()).selfDelimiting exists_rest_eq

/-- A quantity behind another field of a record. -/
theorem strongUInt_determines {Tag : Type} {width bound count : ℕ} (h : 2 ^ width = 256 ^ count)
    (get : ρ → StrongUInt Tag width bound) :
    Determines P (fun a b => get a = get b) (fun r => littleEndian count (get r).value) :=
  ((littleEndian_selfDelimiting count).field (fun r => (get r).value)
    fun r _ => h ▸ (get r).lt).mono fun _ _ _ _ heq => StrongUInt.ext_iff.mpr heq

theorem u64_determines {Tag : Type} {bound : ℕ} (get : ρ → StrongUInt Tag 64 bound) :
    Determines P (fun a b => get a = get b) (fun r => littleEndian 8 (get r).value) :=
  strongUInt_determines (by norm_num) get

theorem u32_determines {Tag : Type} {bound : ℕ} (get : ρ → StrongUInt Tag 32 bound) :
    Determines P (fun a b => get a = get b) (fun r => littleEndian 4 (get r).value) :=
  strongUInt_determines (by norm_num) get

/-- An enumeration that is written as its value. -/
theorem enum_determines {E : Type} {value : E → ℕ} (hlt : ∀ e, value e < 2 ^ 32)
    (hvalue : Function.Injective value) (get : ρ → E) :
    Determines P (fun a b => get a = get b) (fun r => littleEndian 4 (value (get r))) :=
  ((littleEndian_selfDelimiting 4).field (fun r => value (get r))
    fun r _ => (hlt (get r)).trans_eq (by norm_num)).mono fun _ _ _ _ heq => hvalue heq

theorem id_determines {Tag : Type} {n : ℕ} (get : ρ → FixedId Tag n) :
    Determines P (fun a b => get a = get b) (fun r => (get r).word) :=
  FixedId.word_selfDelimiting.field get fun _ _ => trivial

/-- A list behind its length. -/
theorem listWord_selfDelimiting {α : Type} {Q : α → Prop} {word : α → List UInt8}
    (h : SelfDelimiting Q word) :
    SelfDelimiting (fun l => l.length < 2 ^ 64 ∧ ∀ a ∈ l, Q a) (listWord word) := by
  intro l l' s t hl hl' heq
  rw [listWord, listWord, List.append_assoc, List.append_assoc] at heq
  obtain ⟨hlength, hrest⟩ := varWord_selfDelimiting _ _ _ _ hl.1 hl'.1 heq
  exact h.flatMap hl.2 hl'.2 hlength hrest

end Fields

/-! ## Values of enumerations -/

/-- A value that no enumerator declares is not one that an enumerator has. -/
theorem undeclared_ne {raw last : UInt32} (hraw : raw = 0 ∨ last < raw) {v : ℕ} (hpos : 0 < v)
    (hle : v ≤ last.toNat) : raw.toNat ≠ v := by
  rcases hraw with rfl | hlt
  · exact hpos.ne
  · have hlt := UInt32.lt_iff_toNat_lt.mp hlt
    omega

theorem PathLayer.value_lt (layer : PathLayer) : layer.value < 2 ^ 32 := by
  cases layer with
  | undeclared raw _ => exact raw.toNat_lt
  | _ => decide

theorem PathLayer.value_injective : Function.Injective PathLayer.value := by
  intro a b h
  cases a with
  | undeclared raw hraw =>
    cases b with
    | undeclared raw' hraw' =>
      obtain rfl : raw = raw' := UInt32.toNat_inj.mp h
      rfl
    | _ => exact absurd h (undeclared_ne hraw (by decide) (by decide))
  | _ =>
    cases b with
    | undeclared raw hraw => exact absurd h.symm (undeclared_ne hraw (by decide) (by decide))
    | _ => first | rfl | cases h

theorem EndpointClass.value_lt (endpointClass : EndpointClass) : endpointClass.value < 2 ^ 32 := by
  cases endpointClass with
  | undeclared raw _ => exact raw.toNat_lt
  | _ => decide

theorem EndpointClass.value_injective : Function.Injective EndpointClass.value := by
  intro a b h
  cases a with
  | undeclared raw hraw =>
    cases b with
    | undeclared raw' hraw' =>
      obtain rfl : raw = raw' := UInt32.toNat_inj.mp h
      rfl
    | _ => exact absurd h (undeclared_ne hraw (by decide) (by decide))
  | _ =>
    cases b with
    | undeclared raw hraw => exact absurd h.symm (undeclared_ne hraw (by decide) (by decide))
    | _ => first | rfl | cases h

theorem RelationshipType.value_injective : Function.Injective RelationshipType.value := by
  intro a b h
  cases a <;> cases b <;> first | rfl | cases h

theorem EvidenceSource.value_injective : Function.Injective EvidenceSource.value := by
  intro a b h
  cases a <;> cases b <;> first | rfl | cases h

theorem LinkState.value_injective : Function.Injective LinkState.value := by
  intro a b h
  cases a <;> cases b <;> first | rfl | cases h

theorem PortState.value_injective : Function.Injective PortState.value := by
  intro a b h
  cases a <;> cases b <;> first | rfl | cases h

/-! ## Words of records -/

/-- The word of a node. -/
def NodeRecord.word (node : NodeRecord) : List UInt8 :=
  node.id.word ++ node.attachment.word ++ littleEndian 8 node.entityGeneration.value ++
    littleEndian 8 node.structuralGeneration.value ++ listWord FixedId.word node.ports

/-- The word of an edge. -/
def EdgeRecord.word (edge : EdgeRecord) : List UInt8 :=
  edge.id.word ++ edge.source.word ++ edge.target.word ++ edge.fromPort.word ++ edge.toPort.word ++
    littleEndian 4 edge.layer.value ++ littleEndian 4 edge.relationship.value ++
    littleEndian 4 edge.staticCost.value ++ littleEndian 8 edge.entityGeneration.value ++
    littleEndian 8 edge.structuralGeneration.value

/-- The word of an endpoint. -/
def EndpointRecord.word (endpoint : EndpointRecord) : List UInt8 :=
  endpoint.id.word ++ littleEndian 4 endpoint.endpointClass.value ++ endpoint.node.word ++
    endpoint.port.word ++ littleEndian 8 endpoint.entityGeneration.value

/-- The word of a link state. -/
def LinkStateRecord.word (record : LinkStateRecord) : List UInt8 :=
  record.link.word ++ littleEndian 4 record.state.value

/-- The word of a port state. -/
def PortStateRecord.word (record : PortStateRecord) : List UInt8 :=
  record.port.word ++ littleEndian 4 record.state.value

/-- The word of a subject. -/
def SubjectKey.word (subject : SubjectKey) : List UInt8 :=
  littleEndian 4 subject.kind.value ++ subject.bytes.toList

/-- The word of a capability binding. -/
def CapabilityBinding.word (binding : CapabilityBinding) : List UInt8 :=
  binding.subject.word ++ binding.capability.word ++ littleEndian 8 binding.value.value

/-- The word of a failure domain. -/
def FailureDomainRecord.word (record : FailureDomainRecord) : List UInt8 :=
  record.domain.word ++ record.riskClass.word ++ listWord SubjectKey.word record.members

/-- The word of a snapshot. -/
def SnapshotRecords.word (s : SnapshotRecords) : List UInt8 :=
  littleEndian 4 pathEncodingVersion ++ s.generations.word ++
    littleEndian 4 s.evidenceSource.value ++ listWord NodeRecord.word s.nodes ++
    listWord EdgeRecord.word s.edges ++ listWord EndpointRecord.word s.endpoints ++
    listWord LinkStateRecord.word s.linkStates.records ++
    listWord PortStateRecord.word s.portStates.records ++
    listWord CapabilityBinding.word s.capabilities.bindings ++
    varWord s.failureDomains.domains.length ++ boolWord s.failureDomains.membershipComplete ++
    s.failureDomains.domains.flatMap FailureDomainRecord.word

/-! ## What is written -/

section Written

variable {w : ByteWriter} {ceiling : ℕ} {word : List UInt8}

theorem NodeRecord.encode_wrote (h : w.Wrote ceiling word) (node : NodeRecord) :
    (node.encode w).Wrote ceiling (word ++ node.word) := by
  simp only [NodeRecord.word, ← List.append_assoc]
  exact ((((h.id node.id).id node.attachment).u64 node.entityGeneration.value).u64
    node.structuralGeneration.value).list fun port _ w word hw => hw.id port

theorem EdgeRecord.encode_wrote (h : w.Wrote ceiling word) (edge : EdgeRecord) :
    (edge.encode w).Wrote ceiling (word ++ edge.word) := by
  simp only [EdgeRecord.word, ← List.append_assoc]
  exact (((((((((h.id edge.id).id edge.source).id edge.target).id edge.fromPort).id edge.toPort).u32
    edge.layer.value).u32 edge.relationship.value).u32 edge.staticCost.value).u64
      edge.entityGeneration.value).u64 edge.structuralGeneration.value

theorem EndpointRecord.encode_wrote (h : w.Wrote ceiling word) (endpoint : EndpointRecord) :
    (endpoint.encode w).Wrote ceiling (word ++ endpoint.word) := by
  simp only [EndpointRecord.word, ← List.append_assoc]
  exact ((((h.id endpoint.id).u32 endpoint.endpointClass.value).id endpoint.node).id
    endpoint.port).u64 endpoint.entityGeneration.value

theorem SubjectKey.wrote (h : w.Wrote ceiling word) (subject : SubjectKey) :
    ((w.u32 subject.kind.value).fixedBytes subject.bytes.toList).Wrote ceiling
      (word ++ subject.word) := by
  simp only [SubjectKey.word, ← List.append_assoc]
  exact (h.u32 subject.kind.value).fixedBytes subject.bytes.toList

theorem CapabilityBinding.encode_wrote (h : w.Wrote ceiling word) (binding : CapabilityBinding) :
    (binding.encode w).Wrote ceiling (word ++ binding.word) := by
  simp only [CapabilityBinding.word, ← List.append_assoc]
  exact ((SubjectKey.wrote h binding.subject).id binding.capability).u64 binding.value.value

theorem FailureDomainRecord.encode_wrote (h : w.Wrote ceiling word) (record : FailureDomainRecord) :
    (record.encode w).Wrote ceiling (word ++ record.word) := by
  simp only [FailureDomainRecord.word, ← List.append_assoc]
  exact ((h.id record.domain).id record.riskClass).list
    fun member _ w word hw => SubjectKey.wrote hw member

/-- **The encoding** writes the word of a snapshot. -/
theorem SnapshotRecords.encode_wrote (h : w.Wrote ceiling word) (s : SnapshotRecords) :
    (s.encode w).Wrote ceiling (word ++ s.word) := by
  simp only [SnapshotRecords.word, ← List.append_assoc]
  have hhead := ((h.u32 pathEncodingVersion).generations s.generations).u32 s.evidenceSource.value
  have hnodes := hhead.list fun node (_ : node ∈ s.nodes) w word hw => NodeRecord.encode_wrote hw node
  have hedges := hnodes.list fun edge (_ : edge ∈ s.edges) w word hw => EdgeRecord.encode_wrote hw edge
  have hendpoints := hedges.list
    fun endpoint (_ : endpoint ∈ s.endpoints) w word hw => EndpointRecord.encode_wrote hw endpoint
  have hlinks := hendpoints.list (W := LinkStateRecord.word)
    (f := fun w record => (w.id record.link).u32 record.state.value)
    fun record (_ : record ∈ s.linkStates.records) w word hw => by
      simp only [LinkStateRecord.word, ← List.append_assoc]
      exact (hw.id record.link).u32 record.state.value
  have hports := hlinks.list (W := PortStateRecord.word)
    (f := fun w record => (w.id record.port).u32 record.state.value)
    fun record (_ : record ∈ s.portStates.records) w word hw => by
      simp only [PortStateRecord.word, ← List.append_assoc]
      exact (hw.id record.port).u32 record.state.value
  have hbindings := hports.list
    fun binding (_ : binding ∈ s.capabilities.bindings) w word hw =>
      CapabilityBinding.encode_wrote hw binding
  exact ((hbindings.varU64 s.failureDomains.domains.length).bool
    s.failureDomains.membershipComplete).foldl
      fun record (_ : record ∈ s.failureDomains.domains) w word hw =>
        FailureDomainRecord.encode_wrote hw record

end Written

/-! ## What is determined -/

theorem NodeRecord.word_selfDelimiting :
    SelfDelimiting (fun n : NodeRecord => n.ports.length < 2 ^ 64) NodeRecord.word := by
  have hports : SelfDelimiting (fun ports : List PortId => ports.length < 2 ^ 64 ∧ ∀ p ∈ ports, True)
      (listWord FixedId.word) := listWord_selfDelimiting FixedId.word_selfDelimiting
  have h := ((((id_determines NodeRecord.id).append (id_determines NodeRecord.attachment)).append
    (u64_determines NodeRecord.entityGeneration)).append
    (u64_determines NodeRecord.structuralGeneration)).append
    (hports.field NodeRecord.ports fun n (hn : n.ports.length < 2 ^ 64) => ⟨hn, fun _ _ => trivial⟩)
  refine h.mono ?_
  rintro ⟨⟩ ⟨⟩ - - ⟨⟨⟨⟨rfl, rfl⟩, rfl⟩, rfl⟩, rfl⟩
  rfl

theorem EdgeRecord.word_selfDelimiting : SelfDelimiting (fun _ => True) EdgeRecord.word := by
  have h := (((((((((id_determines (P := fun _ => True) EdgeRecord.id).append
    (id_determines EdgeRecord.source)).append (id_determines EdgeRecord.target)).append
    (id_determines EdgeRecord.fromPort)).append (id_determines EdgeRecord.toPort)).append
    (enum_determines PathLayer.value_lt PathLayer.value_injective EdgeRecord.layer)).append
    (enum_determines (fun r => by cases r <;> decide) RelationshipType.value_injective
      EdgeRecord.relationship)).append (u32_determines EdgeRecord.staticCost)).append
    (u64_determines EdgeRecord.entityGeneration)).append
    (u64_determines EdgeRecord.structuralGeneration)
  refine h.mono ?_
  rintro ⟨⟩ ⟨⟩ - - ⟨⟨⟨⟨⟨⟨⟨⟨⟨rfl, rfl⟩, rfl⟩, rfl⟩, rfl⟩, rfl⟩, rfl⟩, rfl⟩, rfl⟩, rfl⟩
  rfl

theorem EndpointRecord.word_selfDelimiting :
    SelfDelimiting (fun _ => True) EndpointRecord.word := by
  have h := ((((id_determines (P := fun _ => True) EndpointRecord.id).append
    (enum_determines EndpointClass.value_lt EndpointClass.value_injective
      EndpointRecord.endpointClass)).append (id_determines EndpointRecord.node)).append
    (id_determines EndpointRecord.port)).append (u64_determines EndpointRecord.entityGeneration)
  refine h.mono ?_
  rintro ⟨⟩ ⟨⟩ - - ⟨⟨⟨⟨rfl, rfl⟩, rfl⟩, rfl⟩, rfl⟩
  rfl

theorem LinkStateRecord.word_selfDelimiting :
    SelfDelimiting (fun _ => True) LinkStateRecord.word := by
  have h := (id_determines (P := fun _ => True) LinkStateRecord.link).append
    (enum_determines (fun state => by cases state <;> decide) LinkState.value_injective
      LinkStateRecord.state)
  refine h.mono ?_
  rintro ⟨⟩ ⟨⟩ - - ⟨rfl, rfl⟩
  rfl

theorem PortStateRecord.word_selfDelimiting :
    SelfDelimiting (fun _ => True) PortStateRecord.word := by
  have h := (id_determines (P := fun _ => True) PortStateRecord.port).append
    (enum_determines (fun state => by cases state <;> decide) PortState.value_injective
      PortStateRecord.state)
  refine h.mono ?_
  rintro ⟨⟩ ⟨⟩ - - ⟨rfl, rfl⟩
  rfl

theorem SubjectKey.word_selfDelimiting : SelfDelimiting (fun _ => True) SubjectKey.word := by
  have hbytes : SelfDelimiting (fun _ => True) (Vector.toList : Vector UInt8 16 → List UInt8) :=
    (ByteReader.array_spells 16 ()).selfDelimiting exists_rest_eq
  have h := (enum_determines (P := fun _ => True) (fun kind => by cases kind <;> decide)
    SubjectKind.value_injective SubjectKey.kind).append
      (hbytes.field SubjectKey.bytes fun _ _ => trivial)
  refine h.mono ?_
  rintro ⟨⟩ ⟨⟩ - - ⟨rfl, rfl⟩
  rfl

theorem CapabilityBinding.word_selfDelimiting :
    SelfDelimiting (fun _ => True) CapabilityBinding.word := by
  have h := ((SubjectKey.word_selfDelimiting.field (P := fun _ => True) CapabilityBinding.subject
    fun _ _ => trivial).append (id_determines CapabilityBinding.capability)).append
    (u64_determines CapabilityBinding.value)
  refine h.mono ?_
  rintro ⟨⟩ ⟨⟩ - - ⟨⟨rfl, rfl⟩, rfl⟩
  rfl

theorem FailureDomainRecord.word_selfDelimiting :
    SelfDelimiting (fun d : FailureDomainRecord => d.members.length < 2 ^ 64)
      FailureDomainRecord.word := by
  have hmembers : SelfDelimiting
      (fun members : List SubjectKey => members.length < 2 ^ 64 ∧ ∀ m ∈ members, True)
      (listWord SubjectKey.word) := listWord_selfDelimiting SubjectKey.word_selfDelimiting
  have h := ((id_determines FailureDomainRecord.domain).append
    (id_determines FailureDomainRecord.riskClass)).append
    (hmembers.field FailureDomainRecord.members
      fun d (hd : d.members.length < 2 ^ 64) => ⟨hd, fun _ _ => trivial⟩)
  refine h.mono ?_
  rintro ⟨⟩ ⟨⟩ - - ⟨⟨rfl, rfl⟩, rfl⟩
  rfl

theorem SnapshotGenerations.word_selfDelimiting :
    SelfDelimiting (fun _ => True) SnapshotGenerations.word := by
  have hspells := (FieldReasons.generations_spells (ε := Unit)
    ⟨fun _ => (), fun _ => (), fun _ => (), fun _ => (), fun _ _ => ()⟩)
  exact hspells.selfDelimiting exists_rest_eq

/-- The memberships of a view are those of its domains. -/
theorem FailureDomainView.eq_of_domains {view view' : FailureDomainView}
    (hdomains : view.domains = view'.domains)
    (hcomplete : view.membershipComplete = view'.membershipComplete) : view = view' := by
  have hmembership : view.membership = view'.membership := by
    refine view.membership_sorted.eq_of_mem_iff view'.membership_sorted fun entry => ?_
    have h := view.mem_membership entry.1 entry.2
    have h' := view'.mem_membership entry.1 entry.2
    rw [hdomains, ← h'] at h
    exact h
  cases view
  cases view'
  cases hdomains
  cases hcomplete
  cases hmembership
  rfl

/-! ## Snapshots -/

/-- What is published by snapshots with one word is the same. -/
structure SnapshotRecords.SameContent (s s' : SnapshotRecords) : Prop where
  generations : s.generations = s'.generations
  evidenceSource : s.evidenceSource = s'.evidenceSource
  nodes : s.nodes = s'.nodes
  edges : s.edges = s'.edges
  endpoints : s.endpoints = s'.endpoints
  linkStates : s.linkStates = s'.linkStates
  portStates : s.portStates = s'.portStates
  capabilities : s.capabilities = s'.capabilities
  failureDomains : s.failureDomains = s'.failureDomains

/-- A configured limit is a number of variable length. -/
theorem lt_of_le_limit {n : ℕ} {limit : UInt32} (h : n ≤ limit.toNat) : n < 2 ^ 64 :=
  h.trans_lt (ByteReader.ceiling_lt limit)

/-- **The word of a snapshot** determines what it publishes. -/
theorem SnapshotRecords.sameContent_of_word_eq {s s' : SnapshotRecords} (heq : s.word = s'.word) :
    s.SameContent s' := by
  have hlist {α : Type} {word : α → List UInt8} (h : SelfDelimiting (fun _ => True) word)
      (get : SnapshotRecords → List α) (hget : ∀ s, (get s).length < 2 ^ 64) :
      Determines (fun _ => True) (fun s s' => get s = get s') (fun s => listWord word (get s)) :=
    (listWord_selfDelimiting h).field get fun s _ => ⟨hget s, fun _ _ => trivial⟩
  have hnodes : Determines (fun _ => True) (fun s s' => s.nodes = s'.nodes)
      (fun s : SnapshotRecords => listWord NodeRecord.word s.nodes) :=
    (listWord_selfDelimiting NodeRecord.word_selfDelimiting).field SnapshotRecords.nodes fun s _ =>
      ⟨lt_of_le_limit s.nodes_length, fun n hn => lt_of_le_limit (s.ports_length n hn)⟩
  -- the parts before the failure domains
  have hhead := (((((((((Determines.literal (P := fun _ : SnapshotRecords => True)
    (littleEndian 4 pathEncodingVersion)).append
    (SnapshotGenerations.word_selfDelimiting.field SnapshotRecords.generations
      fun _ _ => trivial)).append
    (enum_determines (fun source => by cases source <;> decide) EvidenceSource.value_injective
      SnapshotRecords.evidenceSource)).append hnodes).append
    (hlist EdgeRecord.word_selfDelimiting SnapshotRecords.edges
      fun s => lt_of_le_limit s.edges_length)).append
    (hlist EndpointRecord.word_selfDelimiting SnapshotRecords.endpoints
      fun s => lt_of_le_limit s.endpoints_length)).append
    (hlist LinkStateRecord.word_selfDelimiting (·.linkStates.records)
      fun s => lt_of_le_limit s.linkStates_length)).append
    (hlist PortStateRecord.word_selfDelimiting (·.portStates.records)
      fun s => lt_of_le_limit s.portStates_length)).append
    (hlist CapabilityBinding.word_selfDelimiting (·.capabilities.bindings)
      fun s => lt_of_le_limit s.bindings_length)).append
    (varWord_selfDelimiting.field (·.failureDomains.domains.length)
      fun s _ => lt_of_le_limit s.domains_length) |>.append
    (boolWord_selfDelimiting.field (·.failureDomains.membershipComplete) fun _ _ => trivial)
  obtain ⟨⟨⟨⟨⟨⟨⟨⟨⟨⟨⟨-, hgenerations⟩, hsource⟩, hnodes⟩, hedges⟩, hendpoints⟩, hlinks⟩, hports⟩,
    hbindings⟩, hlength⟩, hcomplete⟩, hrest⟩ := hhead s s' _ _ trivial trivial heq
  -- the failure domains stand behind their number and the flag
  have hdomains := (FailureDomainRecord.word_selfDelimiting.flatMap
    (fun d hd => lt_of_le_limit (s.members_length d hd))
    (fun d hd => lt_of_le_limit (s'.members_length d hd)) hlength
    (congrArg (· ++ []) hrest)).1
  exact ⟨hgenerations, hsource, hnodes, hedges, hendpoints, LinkStateView.ext hlinks,
    PortStateView.ext hports, CapabilityView.ext hbindings,
    FailureDomainView.eq_of_domains hdomains hcomplete⟩

/-- Snapshots that publish the same under the same limits are the same. -/
theorem SnapshotRecords.SameContent.eq {s s' : SnapshotRecords} (h : s.SameContent s')
    (hlimits : s.limits = s'.limits) : s = s' := by
  obtain ⟨hgenerations, hsource, hnodes, hedges, hendpoints, hlinks, hports, hbindings, hdomains⟩ := h
  cases s
  cases s'
  cases hlimits
  cases hgenerations
  cases hsource
  cases hnodes
  cases hedges
  cases hendpoints
  cases hlinks
  cases hports
  cases hbindings
  cases hdomains
  rfl

/-- `Encode` produces the bytes, under a ceiling that they fit. -/
def SnapshotRecords.Encodes (s : SnapshotRecords) (bytes : List UInt8) : Prop :=
  ∃ ceiling, (s.encode (ByteWriter.new ceiling)).overflowed = false ∧
    (s.encode (ByteWriter.new ceiling)).data = bytes

/-- What `Encode` produces is the word. -/
theorem SnapshotRecords.encodes_iff {s : SnapshotRecords} {bytes : List UInt8} :
    s.Encodes bytes ↔ bytes = s.word := by
  constructor
  · rintro ⟨ceiling, hover, rfl⟩
    exact (SnapshotRecords.encode_wrote (.new ceiling) s).data_eq hover
  · rintro rfl
    have hwrote := SnapshotRecords.encode_wrote (.new s.word.length) s
    have hover := hwrote.overflowed_eq_false_iff.mpr le_rfl
    exact ⟨_, hover, hwrote.data_eq hover⟩

namespace FabricSnapshotBuilder

variable {sha : List UInt8 → Sha256Digest} {b b' : FabricSnapshotBuilder} {s s' : FabricSnapshot}

/-- A result that is present is a success. -/
theorem exists_eq_ok {ε α : Type} {x : Except ε α} (h : x.toOption.isSome = true) :
    ∃ a, x = .ok a := ⟨_, eq_ok_get h⟩

/-- The digest of a snapshot that was built is that of its word. -/
theorem digest_of_build (h : b.build sha = .ok s) : s.digest = sha s.word := by
  unfold build at h
  split at h
  · cases h
  · next r hr =>
    dsimp only at h
    split_ifs at h with hover
    cases h
    have hwrote := SnapshotRecords.encode_wrote (.new (1024 + b.recordCount * 128)) r
    exact congrArg sha (hwrote.data_eq (Bool.eq_false_iff.mpr hover))

/-- **The encoding tells content apart**: built snapshots with the same bytes publish the same, and
built snapshots with the same identity publish the same unless the hash collides on their bytes. -/
theorem build_encoding_injective (h : b.build sha = .ok s) (h' : b'.build sha = .ok s') :
    (∀ bytes, s.Encodes bytes → s'.Encodes bytes → s.SameContent s'.toSnapshotRecords) ∧
      (s.id = s'.id → s.SameContent s'.toSnapshotRecords ∨ ∃ bytes bytes', s.Encodes bytes ∧
        s'.Encodes bytes' ∧ bytes ≠ bytes' ∧
          (FixedId.fromDigest (sha bytes) : SnapshotId) = FixedId.fromDigest (sha bytes')) := by
  constructor
  · intro bytes hs hs'
    rw [SnapshotRecords.encodes_iff] at hs hs'
    exact SnapshotRecords.sameContent_of_word_eq (hs.symm.trans hs')
  · intro hid
    by_cases heq : s.word = s'.word
    · exact Or.inl (SnapshotRecords.sameContent_of_word_eq heq)
    · refine Or.inr ⟨s.word, s'.word, SnapshotRecords.encodes_iff.mpr rfl,
        SnapshotRecords.encodes_iff.mpr rfl, heq, ?_⟩
      unfold FabricSnapshot.id at hid
      rw [digest_of_build h, digest_of_build h'] at hid
      exact hid

end FabricSnapshotBuilder

/-- Under a hash that does not look at its input, two fabrics collide. -/
theorem build_encoding_injective_currentCalls :
    ∃ s s', (builderAfter currentCalls).build onesHash = .ok s ∧
      (builderAfter repeatedRecord).build onesHash = .ok s' ∧ s.id = s'.id ∧
      ∃ bytes bytes', s.Encodes bytes ∧ s'.Encodes bytes' ∧ bytes ≠ bytes' := by
  obtain ⟨s, hbuild⟩ := FabricSnapshotBuilder.exists_eq_ok
    (x := (builderAfter currentCalls).build onesHash) (by decide +kernel)
  obtain ⟨s', hbuild'⟩ := FabricSnapshotBuilder.exists_eq_ok
    (x := (builderAfter repeatedRecord).build onesHash) (by decide +kernel)
  have hid : s.id = s'.id := by
    unfold FabricSnapshot.id
    rw [FabricSnapshotBuilder.digest_of_build hbuild, FabricSnapshotBuilder.digest_of_build hbuild',
      onesHash, onesHash]
  refine ⟨s, s', hbuild, hbuild', hid, ?_⟩
  rcases (FabricSnapshotBuilder.build_encoding_injective hbuild hbuild').2 hid with
    hsame | ⟨bytes, bytes', hs, hs', hne, -⟩
  · -- the generations differ
    have hgenerations := hsame.generations
    rw [(FabricSnapshotBuilder.records_eq_ok
        (FabricSnapshotBuilder.records_of_build hbuild)).1.generations,
      (FabricSnapshotBuilder.records_eq_ok
        (FabricSnapshotBuilder.records_of_build hbuild')).1.generations] at hgenerations
    exact absurd hgenerations (by decide +kernel)
  · exact ⟨bytes, bytes', hs, hs', hne⟩

end PathPlanner
