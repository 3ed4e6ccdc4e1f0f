import PathPlanner.Library.Spread
import PathPlanner.Snapshot.Encoding

/-!
# What can be built

`Build` succeeds when its records pass the checks, their encoding fits the ceiling and the digest of
the encoding is not zero. The checks look at each list by itself, up to the references from edges and
endpoints to nodes; the size of the encoding does not depend on the order of the records.

## Main definitions

* `FabricSnapshotBuilder.IsConsistent`, `FabricSnapshotBuilder.IsBuildable`: the records pass the
  checks
* `FabricContent`: the records that a builder is given
* `FabricContent.word`, `FabricContent.encodedSize`: their encoding and its size

## Main results

* `FabricSnapshotBuilder.exists_records_iff`: when there are records to encode
* `FabricContent.length_word`: the encoding has the size that is expected
* `FabricSnapshotBuilder.exists_build_iff`: when there is a snapshot
-/

namespace PathPlanner

open SortedList Spread

namespace FabricSnapshotBuilder

/-! ## References -/

section References

variable {nodes : List NodeRecord}

/-- A port of a node is found by two binary searches. -/
theorem exists_find?_iff (hn : (nodes.map (·.id)).Nodup)
    (hp : ∀ n ∈ nodes, n.ports.Pairwise (· ≤ ·)) {id : NodeId} {port : PortId} :
    (∃ n, find? NodeRecord.id (sortBy NodeRecord.id nodes) id = some n ∧
      binarySearch n.ports port = true) ↔ ∃ n ∈ nodes, n.id = id ∧ port ∈ n.ports := by
  have hsorted := pairwise_lt_sortBy NodeRecord.id nodes hn
  constructor
  · rintro ⟨n, hfind, hport⟩
    obtain ⟨hmem, hid⟩ := (find?_eq_some_iff hsorted).mp hfind
    have hmem := (mem_sortBy _ _).mp hmem
    exact ⟨n, hmem, hid, (binarySearch_iff (hp n hmem)).mp hport⟩
  · rintro ⟨n, hmem, hid, hport⟩
    exact ⟨n, (find?_eq_some_iff hsorted).mpr ⟨(mem_sortBy _ _).mpr hmem, hid⟩,
      (binarySearch_iff (hp n hmem)).mpr hport⟩

/-- An edge passes exactly when both its ends are published. -/
theorem edgeReferenceError_eq_none_iff (hn : (nodes.map (·.id)).Nodup)
    (hp : ∀ n ∈ nodes, n.ports.Pairwise (· ≤ ·)) {edge : EdgeRecord} :
    edgeReferenceError (sortBy NodeRecord.id nodes) edge = none ↔
      (∃ n ∈ nodes, n.id = edge.source ∧ edge.fromPort ∈ n.ports) ∧
        ∃ n ∈ nodes, n.id = edge.target ∧ edge.toPort ∈ n.ports := by
  rw [← exists_find?_iff hn hp, ← exists_find?_iff hn hp]
  unfold edgeReferenceError
  cases find? NodeRecord.id (sortBy NodeRecord.id nodes) edge.source with
  | none => simp
  | some source =>
    dsimp only
    cases hs : binarySearch source.ports edge.fromPort with
    | false => simp [hs]
    | true =>
      cases find? NodeRecord.id (sortBy NodeRecord.id nodes) edge.target with
      | none => simp
      | some target => simp [hs]

/-- An endpoint passes exactly when its port is published. -/
theorem endpointReferenceError_eq_none_iff (hn : (nodes.map (·.id)).Nodup)
    (hp : ∀ n ∈ nodes, n.ports.Pairwise (· ≤ ·)) {endpoint : EndpointRecord} :
    endpointReferenceError (sortBy NodeRecord.id nodes) endpoint = none ↔
      ∃ n ∈ nodes, n.id = endpoint.node ∧ endpoint.port ∈ n.ports := by
  rw [← exists_find?_iff hn hp]
  unfold endpointReferenceError
  cases find? NodeRecord.id (sortBy NodeRecord.id nodes) endpoint.node with
  | none => simp
  | some node => simp

end References

/-! ## Checks -/

/-- The records pass the checks of `Build` that do not depend on their order. -/
structure IsConsistent (b : FabricSnapshotBuilder) : Prop where
  limits : validateLimits b.limits = none
  nodes : (b.nodes.map (·.id)).Nodup
  edges : (b.edges.map (·.id)).Nodup
  endpoints : (b.endpoints.map (·.id)).Nodup
  edge_source : ∀ e ∈ b.edges, ∃ n ∈ b.nodes, n.id = e.source ∧ e.fromPort ∈ n.ports
  edge_target : ∀ e ∈ b.edges, ∃ n ∈ b.nodes, n.id = e.target ∧ e.toPort ∈ n.ports
  endpoint_node : ∀ e ∈ b.endpoints, ∃ n ∈ b.nodes, n.id = e.node ∧ e.port ∈ n.ports
  counts : b.recordLimitError = none
  domains : ∀ d ∈ b.failureDomains, failureDomainError b.limits d = none

/-- The records pass the checks of `Build`. -/
structure IsBuildable (b : FabricSnapshotBuilder) : Prop extends b.IsConsistent where
  duplicates : b.recordDuplicateError = none

variable {b : FabricSnapshotBuilder}

/-- The duplicate test passes exactly when neighbours have different keys. -/
theorem hasAdjacent_eq_false_iff_isSpread {α κ : Type} [DecidableEq κ] {key : α → κ}
    {records : List α} :
    hasAdjacent (fun p q => decide (key p = key q)) records = false ↔ IsSpread key records := by
  rw [hasAdjacent_eq_false_iff]
  simp only [decide_eq_false_iff_not]
  rfl

/-- **The duplicate tests** pass exactly when the four lists of consumed records are spread. -/
theorem recordDuplicateError_eq_none_iff : b.recordDuplicateError = none ↔
    IsSpread LinkStateRecord.link b.linkStates ∧ IsSpread PortStateRecord.port b.portStates ∧
      IsSpread CapabilityBinding.key b.capabilities ∧
      IsSpread FailureDomainRecord.domain b.failureDomains := by
  simp only [← hasAdjacent_eq_false_iff_isSpread]
  unfold recordDuplicateError
  constructor
  · intro h
    split_ifs at h with hlinks hports hbindings hdomains
    simp only [Bool.not_eq_true] at hlinks hports hbindings hdomains
    exact ⟨hlinks, hports, hbindings, hdomains⟩
  · rintro ⟨hlinks, hports, hbindings, hdomains⟩
    rw [hlinks, hports, hbindings, hdomains]
    rfl

/-- **The checks**: there are records to encode exactly when they pass. -/
theorem exists_records_iff : (∃ r, b.records = .ok r) ↔ b.IsBuildable := by
  constructor
  · rintro ⟨r, h⟩
    obtain ⟨hpublishes, hvalid, hchecks⟩ := records_eq_ok h
    obtain ⟨hcounts, hrest⟩ := Option.or_eq_none_iff.mp hchecks
    obtain ⟨hduplicates, hdomains⟩ := Option.or_eq_none_iff.mp hrest
    have hnodes := hpublishes.nodes ▸ r.nodes_sorted
    have hedges := hpublishes.edges ▸ r.edges_sorted
    have hendpoints := hpublishes.endpoints ▸ r.endpoints_sorted
    have hmem {n : NodeRecord} : n ∈ r.nodes ↔ n ∈ b.nodes := by
      rw [hpublishes.nodes]
      exact mem_sortBy _ _
    have hedge {e : EdgeRecord} (he : e ∈ b.edges) : e ∈ r.edges := by
      rw [hpublishes.edges]
      exact (mem_sortBy _ _).mpr he
    have hsource := r.edge_source
    have htarget := r.edge_target
    have hendpoint := r.endpoint_node
    simp only [hmem] at hsource htarget hendpoint
    exact {
      limits := hvalid
      nodes := pairwise_lt_sortBy_iff.mp hnodes
      edges := pairwise_lt_sortBy_iff.mp hedges
      endpoints := pairwise_lt_sortBy_iff.mp hendpoints
      edge_source := fun e he => hsource e (hedge he)
      edge_target := fun e he => htarget e (hedge he)
      endpoint_node := fun e he => hendpoint e (hpublishes.endpoints ▸ (mem_sortBy _ _).mpr he)
      counts := hcounts
      duplicates := hduplicates
      domains := List.findSome?_eq_none_iff.mp hdomains }
  · intro hb
    have hedges := fun e he => (edgeReferenceError_eq_none_iff hb.nodes b.ports_sorted).mpr
      ⟨hb.edge_source e ((mem_sortBy EdgeRecord.id b.edges).mp he),
        hb.edge_target e ((mem_sortBy EdgeRecord.id b.edges).mp he)⟩
    have hendpoints := fun e he => (endpointReferenceError_eq_none_iff hb.nodes b.ports_sorted).mpr
      (hb.endpoint_node e ((mem_sortBy EndpointRecord.id b.endpoints).mp he))
    have hchecks : b.recordLimitError.or (b.recordDuplicateError.or
        (b.failureDomains.findSome? (failureDomainError b.limits))) = none :=
      Option.or_eq_none_iff.mpr ⟨hb.counts, Option.or_eq_none_iff.mpr
        ⟨hb.duplicates, List.findSome?_eq_none_iff.mpr hb.domains⟩⟩
    cases h : b.records with
    | ok r => exact ⟨r, rfl⟩
    | error error =>
      -- no check fails
      exfalso
      unfold records at h
      split at h
      · next hinvalid => exact Option.some_ne_none _ (hinvalid.symm.trans hb.limits)
      rw [dif_pos (strictlySortedBy_iff.mpr (pairwise_lt_sortBy _ _ hb.nodes)),
        dif_pos (strictlySortedBy_iff.mpr (pairwise_lt_sortBy _ _ hb.edges))] at h
      split at h
      · next hr => exact Option.some_ne_none _ (hr.symm.trans (List.findSome?_eq_none_iff.mpr hedges))
      rw [dif_pos (strictlySortedBy_iff.mpr (pairwise_lt_sortBy _ _ hb.endpoints))] at h
      split at h
      · next hq =>
        exact Option.some_ne_none _ (hq.symm.trans (List.findSome?_eq_none_iff.mpr hendpoints))
      split at h
      · next hl => exact Option.some_ne_none _ (hl.symm.trans hchecks)
      · cases h

end FabricSnapshotBuilder

/-! ## Sizes -/

/-- The records that a builder is given. -/
structure FabricContent where
  generations : SnapshotGenerations := {}
  evidenceSource : EvidenceSource := .synthetic
  nodes : List NodeRecord := []
  edges : List EdgeRecord := []
  endpoints : List EndpointRecord := []
  linkStates : List LinkStateRecord := []
  portStates : List PortStateRecord := []
  capabilities : List CapabilityBinding := []
  failureDomains : List FailureDomainRecord := []
  membershipComplete : Bool := false

/-- The size of a number of variable length. -/
def varSize (value : ℕ) : ℕ := (varWord value).length

/-- The size of a node: its fixed fields and its ports. -/
def NodeRecord.encodedSize (node : NodeRecord) : ℕ :=
  48 + varSize node.ports.length + 16 * node.ports.length

/-- The size of a failure domain: its identities and its members, each counted once. -/
def FailureDomainRecord.encodedSize (record : FailureDomainRecord) : ℕ :=
  16 + varSize record.members.dedup.length + 20 * record.members.dedup.length

namespace FabricContent

variable (c : FabricContent)

/-- The size of the encoding of the records. -/
def encodedSize : ℕ :=
  72 + (varSize c.nodes.length + (c.nodes.map NodeRecord.encodedSize).sum) +
    (varSize c.edges.length + 108 * c.edges.length) +
    (varSize c.endpoints.length + 60 * c.endpoints.length) +
    (varSize c.linkStates.length + 20 * c.linkStates.length) +
    (varSize c.portStates.length + 20 * c.portStates.length) +
    (varSize c.capabilities.length + 36 * c.capabilities.length) +
    (varSize c.failureDomains.length + 1 + (c.failureDomains.map FailureDomainRecord.encodedSize).sum)

/-- The number of records, not counting ports and members. -/
def recordCount : ℕ :=
  c.nodes.length + c.edges.length + c.endpoints.length + c.linkStates.length +
    c.portStates.length + c.capabilities.length + c.failureDomains.length

/-- The word of the records: each list behind its length, sorted by its keys. -/
def word : List UInt8 :=
  littleEndian 4 pathEncodingVersion ++ c.generations.word ++
    littleEndian 4 c.evidenceSource.value ++
    listWord NodeRecord.word (sortBy NodeRecord.id c.nodes) ++
    listWord EdgeRecord.word (sortBy EdgeRecord.id c.edges) ++
    listWord EndpointRecord.word (sortBy EndpointRecord.id c.endpoints) ++
    listWord LinkStateRecord.word (sortBy LinkStateRecord.link c.linkStates) ++
    listWord PortStateRecord.word (sortBy PortStateRecord.port c.portStates) ++
    listWord CapabilityBinding.word (sortBy CapabilityBinding.key c.capabilities) ++
    varWord c.failureDomains.length ++ boolWord c.membershipComplete ++
    (sortBy FailureDomainRecord.domain
      (c.failureDomains.map FabricSnapshotBuilder.normalizeDomain)).flatMap FailureDomainRecord.word

end FabricContent

section Sizes

theorem length_listWord {α : Type} {word : α → List UInt8} {size : α → ℕ}
    (hsize : ∀ a, (word a).length = size a) (l : List α) :
    (listWord word l).length = varSize l.length + (l.map size).sum := by
  rw [listWord, List.length_append, List.length_flatMap, varSize]
  simp only [hsize]

theorem length_listWord_of_const {α : Type} {word : α → List UInt8} {size : ℕ}
    (hsize : ∀ a, (word a).length = size) (l : List α) :
    (listWord word l).length = varSize l.length + size * l.length := by
  rw [length_listWord hsize, List.map_const', List.sum_replicate, smul_eq_mul, mul_comm]

theorem NodeRecord.length_word (node : NodeRecord) : node.word.length = node.encodedSize := by
  unfold NodeRecord.word NodeRecord.encodedSize
  simp only [List.length_append, FixedId.length_word, length_littleEndian,
    length_listWord_of_const FixedId.length_word]
  omega

theorem EdgeRecord.length_word (edge : EdgeRecord) : edge.word.length = 108 := by
  simp only [EdgeRecord.word, List.length_append, FixedId.length_word, length_littleEndian]

theorem EndpointRecord.length_word (endpoint : EndpointRecord) : endpoint.word.length = 60 := by
  simp only [EndpointRecord.word, List.length_append, FixedId.length_word, length_littleEndian]

theorem LinkStateRecord.length_word (record : LinkStateRecord) : record.word.length = 20 := by
  simp only [LinkStateRecord.word, List.length_append, FixedId.length_word, length_littleEndian]

theorem PortStateRecord.length_word (record : PortStateRecord) : record.word.length = 20 := by
  simp only [PortStateRecord.word, List.length_append, FixedId.length_word, length_littleEndian]

theorem SubjectKey.length_word (subject : SubjectKey) : subject.word.length = 20 := by
  simp only [SubjectKey.word, List.length_append, length_littleEndian, Vector.length_toList]

theorem CapabilityBinding.length_word (binding : CapabilityBinding) : binding.word.length = 36 := by
  simp only [CapabilityBinding.word, List.length_append, SubjectKey.length_word,
    FixedId.length_word, length_littleEndian]

/-- The members of a published domain are sorted and listed once. -/
theorem length_members_normalizeDomain (record : FailureDomainRecord) :
    (FabricSnapshotBuilder.normalizeDomain record).members.length =
      record.members.dedup.length := by
  change (unique (sortBy id record.members)).length = _
  rw [unique_of_pairwise (pairwise_sortBy id _)]
  exact ((perm_sortBy id record.members).dedup).length_eq

theorem FailureDomainRecord.length_word_normalizeDomain (record : FailureDomainRecord) :
    (FabricSnapshotBuilder.normalizeDomain record).word.length = record.encodedSize := by
  unfold FailureDomainRecord.word FailureDomainRecord.encodedSize
  rw [List.length_append, List.length_append, length_listWord_of_const SubjectKey.length_word,
    length_members_normalizeDomain, FixedId.length_word, FixedId.length_word]
  omega

/-- Sorting does not change a sum. -/
theorem sum_map_sortBy {α κ : Type} [LinearOrder κ] (key : α → κ) (f : α → ℕ) (l : List α) :
    ((sortBy key l).map f).sum = (l.map f).sum :=
  ((perm_sortBy key l).map f).sum_eq

/-- **The size of the encoding** does not depend on the order of the records. -/
theorem FabricContent.length_word (c : FabricContent) : c.word.length = c.encodedSize := by
  have hgenerations : c.generations.word.length = 64 := by
    simp only [SnapshotGenerations.word, List.length_append, length_littleEndian]
  have hdomains : ((sortBy FailureDomainRecord.domain
      (c.failureDomains.map FabricSnapshotBuilder.normalizeDomain)).flatMap
        FailureDomainRecord.word).length =
      (c.failureDomains.map FailureDomainRecord.encodedSize).sum := by
    rw [List.length_flatMap]
    refine (sum_map_sortBy _ _ _).trans ?_
    rw [List.map_map]
    exact congrArg List.sum (List.map_congr_left fun record _ => record.length_word_normalizeDomain)
  unfold FabricContent.word
  simp only [List.length_append, length_littleEndian, hgenerations, hdomains, length_boolWord,
    length_listWord NodeRecord.length_word, length_listWord_of_const EdgeRecord.length_word,
    length_listWord_of_const EndpointRecord.length_word,
    length_listWord_of_const LinkStateRecord.length_word,
    length_listWord_of_const PortStateRecord.length_word,
    length_listWord_of_const CapabilityBinding.length_word, sum_map_sortBy, length_sortBy]
  unfold FabricContent.encodedSize varSize
  omega

end Sizes

namespace FabricSnapshotBuilder

variable {b : FabricSnapshotBuilder}

/-- What a builder holds. -/
def content (b : FabricSnapshotBuilder) : FabricContent where
  generations := b.generations
  evidenceSource := b.evidenceSource
  nodes := b.nodes
  edges := b.edges
  endpoints := b.endpoints
  linkStates := b.linkStates
  portStates := b.portStates
  capabilities := b.capabilities
  failureDomains := b.failureDomains
  membershipComplete := b.membershipComplete

/-- **The word** of what a builder publishes is that of what it holds. -/
theorem word_eq {r : SnapshotRecords} (h : b.Publishes r) : r.word = b.content.word := by
  unfold SnapshotRecords.word
  rw [h.generations, h.evidenceSource, h.nodes, h.edges, h.endpoints, h.linkStates, h.portStates,
    h.capabilities, h.failureDomains]
  simp only [LinkStateView.ofRecords, PortStateView.ofRecords, CapabilityView.ofBindings,
    FailureDomainView.ofDomains, length_sortBy, List.length_map]
  rfl

/-- **When there is a snapshot**: the checks pass, the encoding fits the ceiling, and its digest is
not zero. -/
theorem exists_build_iff {sha : List UInt8 → Sha256Digest} :
    (∃ s, b.build sha = .ok s) ↔ b.IsBuildable ∧
      b.content.encodedSize ≤ 1024 + b.content.recordCount * 128 ∧
      (sha b.content.word).isZero = false := by
  rw [← exists_records_iff]
  cases hr : b.records with
  | error error =>
    refine iff_of_false ?_ fun h => ?_
    · rintro ⟨s, h⟩
      cases hr.symm.trans (records_of_build h)
    · obtain ⟨r, h⟩ := h.1
      cases h
  | ok r =>
    have hwrote := SnapshotRecords.encode_wrote (.new (1024 + b.recordCount * 128)) r
    rw [List.nil_append, word_eq (records_eq_ok hr).1] at hwrote
    have hcount : b.content.recordCount = b.recordCount := rfl
    rw [hcount, ← FabricContent.length_word]
    constructor
    · rintro ⟨s, h⟩
      unfold build at h
      rw [hr] at h
      dsimp only at h
      split_ifs at h with hover hzero
      rw [Bool.not_eq_true] at hover
      refine ⟨⟨r, rfl⟩, hwrote.overflowed_eq_false_iff.mp hover, ?_⟩
      rw [← hwrote.data_eq hover]
      exact Bool.eq_false_iff.mpr hzero
    · rintro ⟨-, hfits, hzero⟩
      have hover := hwrote.overflowed_eq_false_iff.mpr hfits
      unfold build
      rw [hr]
      dsimp only
      rw [if_neg (Bool.eq_false_iff.mp hover), hwrote.data_eq hover, hzero]
      exact ⟨_, rfl⟩

end FabricSnapshotBuilder

end PathPlanner
