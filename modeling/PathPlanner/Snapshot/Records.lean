import PathPlanner.Core.Canonical
import PathPlanner.Core.Status
import PathPlanner.Library.SortedList
import Mathlib.Data.Prod.Lex

/-!
# Fabric records and their views

The records the owning runtimes publish, and the sorted views that planning reads them through.
A view holds its records sorted by key, so lookup is by binary search; absence of a link or port
record means the state `UNKNOWN`, absence of a binding means the capability is unknown, and
membership of a subject without a record is unknown unless the registry published complete
membership.

## Main definitions

* `SubjectKey`: a node, link or port identity with its kind
* `NodeRecord`, `EdgeRecord`, `EndpointRecord`: topology records
* `LinkStateView`, `PortStateView`, `CapabilityView`, `FailureDomainView`: the views
* `SnapshotGenerations`, `EvidenceVector`, `classifyEvidence`: what a plan was computed from

## Main results

* `LinkStateView.stateOf_eq_iff`, `PortStateView.stateOf_eq_iff`, `CapabilityView.lookup_eq_some_iff`,
  `FailureDomainView.findDomain_eq_some_iff`: with unique keys, lookup is publication
* `FailureDomainView.mem_membershipOf`, `FailureDomainView.membershipOf_known_iff`: the membership
  lookup returns the published memberships
* `classifyEvidence_eq_current_iff`: evidence is current exactly when no classified generation moved
-/

namespace PathPlanner

open SortedList

/-! ## Subjects -/

/-- `SubjectKind`. -/
inductive SubjectKind
  | node
  | link
  | port
  deriving DecidableEq, Repr

/-- The stable numeric value of a subject kind. -/
def SubjectKind.value : SubjectKind → ℕ
  | node => 1
  | link => 2
  | port => 3

/-- `kSubjectKindNames`. -/
def subjectKindNames : List (String × ℕ) := [("NODE", 1), ("LINK", 2), ("PORT", 3)]

theorem SubjectKind.value_injective : Function.Injective SubjectKind.value := by
  intro a b h
  cases a <;> cases b <;> first | rfl | cases h

/-- `SubjectKey`: a typed identifier of 16 bytes plus its kind. -/
structure SubjectKey where
  kind : SubjectKind
  bytes : Vector UInt8 16
  deriving DecidableEq

namespace SubjectKey

/-- `SubjectKey::ForNode`. -/
def forNode (id : NodeId) : SubjectKey := ⟨.node, id.bytes⟩

/-- `SubjectKey::ForLink`. -/
def forLink (id : LinkId) : SubjectKey := ⟨.link, id.bytes⟩

/-- `SubjectKey::ForPort`. -/
def forPort (id : PortId) : SubjectKey := ⟨.port, id.bytes⟩

/-- `SubjectKey::AsNode`. -/
def asNode (subject : SubjectKey) : Option NodeId :=
  if subject.kind ≠ .node then none else some ⟨subject.bytes⟩

/-- `SubjectKey::AsLink`. -/
def asLink (subject : SubjectKey) : Option LinkId :=
  if subject.kind ≠ .link then none else some ⟨subject.bytes⟩

/-- `SubjectKey::AsPort`. -/
def asPort (subject : SubjectKey) : Option PortId :=
  if subject.kind ≠ .port then none else some ⟨subject.bytes⟩

/-- `SubjectKey::ToString`. -/
def toString (subject : SubjectKey) : String :=
  enumName subjectKindNames subject.kind.value ++ ":" ++ hexEncode subject.bytes.toList

/-- The sort key of a subject: its kind, then its bytes. -/
def key (subject : SubjectKey) : List ℕ :=
  subject.kind.value :: subject.bytes.toList.map UInt8.toNat

theorem key_injective : Function.Injective key := by
  rintro ⟨k, a⟩ ⟨l, b⟩ h
  obtain ⟨hk, hb⟩ := List.cons.inj h
  have hl : a.toList = b.toList :=
    List.map_injective_iff.mpr (fun _ _ e => UInt8.toNat_inj.mp e) hb
  obtain rfl := SubjectKind.value_injective hk
  rw [Vector.toList_inj.mp hl]

/-- The order of `SubjectKey::operator<=>`: kind first, then bytewise. -/
instance : LinearOrder SubjectKey where
  le a b := a.key ≤ b.key
  lt a b := a.key < b.key
  le_refl _ := le_rfl
  le_trans _ _ _ := le_trans
  lt_iff_le_not_ge _ _ := lt_iff_le_not_ge
  le_antisymm _ _ h h' := key_injective (le_antisymm h h')
  le_total _ _ := le_total _ _
  toDecidableLE a b := inferInstanceAs (Decidable (a.key ≤ b.key))
  toDecidableEq := inferInstance
  toDecidableLT a b := inferInstanceAs (Decidable (a.key < b.key))

@[simp] theorem forLink_inj {a b : LinkId} : forLink a = forLink b ↔ a = b := by
  rw [FixedId.ext_iff]
  simp [forLink]

@[simp] theorem forNode_inj {a b : NodeId} : forNode a = forNode b ↔ a = b := by
  rw [FixedId.ext_iff]
  simp [forNode]

@[simp] theorem forPort_inj {a b : PortId} : forPort a = forPort b ↔ a = b := by
  rw [FixedId.ext_iff]
  simp [forPort]

end SubjectKey

/-! ## Topology records -/

/-- `NodeRecord`. -/
structure NodeRecord where
  id : NodeId
  attachment : SwitchId
  entityGeneration : EntityGeneration
  structuralGeneration : TopologyGeneration
  ports : List PortId
  deriving Inhabited

/-- `EdgeRecord`. -/
structure EdgeRecord where
  id : LinkId
  source : NodeId
  target : NodeId
  fromPort : PortId
  toPort : PortId
  layer : PathLayer := .physical
  relationship : RelationshipType := .directLink
  staticCost : StaticCost := default
  entityGeneration : EntityGeneration := default
  structuralGeneration : TopologyGeneration := default

instance : Inhabited EdgeRecord where
  default := {
    id := default
    source := default
    target := default
    fromPort := default
    toPort := default }

/-- `EndpointRecord`. -/
structure EndpointRecord where
  id : EndpointId
  endpointClass : EndpointClass := .endpoint
  node : NodeId
  port : PortId
  entityGeneration : EntityGeneration

/-! ## Operational state views -/

/-- `LinkStateRecord`. -/
structure LinkStateRecord where
  link : LinkId
  state : LinkState := .unknown

/-- `LinkStateView`: link-state records sorted by link. -/
@[ext] structure LinkStateView where
  records : List LinkStateRecord
  sorted : records.Pairwise (·.link ≤ ·.link)

namespace LinkStateView

/-- The constructor `LinkStateView(records)`. -/
def ofRecords (records : List LinkStateRecord) : LinkStateView :=
  ⟨sortBy LinkStateRecord.link records, pairwise_sortBy _ _⟩

/-- `LinkStateView::Find`. -/
def find (view : LinkStateView) (link : LinkId) : Option LinkStateRecord :=
  find? LinkStateRecord.link view.records link

/-- `LinkStateView::StateOf`: a link without a record is `UNKNOWN`. -/
def stateOf (view : LinkStateView) (link : LinkId) : LinkState :=
  ((view.find link).map LinkStateRecord.state).getD .unknown

/-- With one record per link, the state of a link is the published one, or `UNKNOWN`. -/
theorem stateOf_eq_iff {view : LinkStateView} (h : (view.records.map (·.link)).Nodup)
    {link : LinkId} {state : LinkState} :
    view.stateOf link = state ↔ (∃ r ∈ view.records, r.link = link ∧ r.state = state) ∨
      (state = .unknown ∧ ∀ r ∈ view.records, r.link ≠ link) :=
  find?_elim_eq_iff view.sorted h

end LinkStateView

/-- `PortStateRecord`. -/
structure PortStateRecord where
  port : PortId
  state : PortState := .unknown

/-- `PortStateView`: port-state records sorted by port. -/
@[ext] structure PortStateView where
  records : List PortStateRecord
  sorted : records.Pairwise (·.port ≤ ·.port)

namespace PortStateView

/-- The constructor `PortStateView(records)`. -/
def ofRecords (records : List PortStateRecord) : PortStateView :=
  ⟨sortBy PortStateRecord.port records, pairwise_sortBy _ _⟩

/-- `PortStateView::Find`. -/
def find (view : PortStateView) (port : PortId) : Option PortStateRecord :=
  find? PortStateRecord.port view.records port

/-- `PortStateView::StateOf`: a port without a record is `UNKNOWN`. -/
def stateOf (view : PortStateView) (port : PortId) : PortState :=
  ((view.find port).map PortStateRecord.state).getD .unknown

/-- With one record per port, the state of a port is the published one, or `UNKNOWN`. -/
theorem stateOf_eq_iff {view : PortStateView} (h : (view.records.map (·.port)).Nodup)
    {port : PortId} {state : PortState} :
    view.stateOf port = state ↔ (∃ r ∈ view.records, r.port = port ∧ r.state = state) ∨
      (state = .unknown ∧ ∀ r ∈ view.records, r.port ≠ port) :=
  find?_elim_eq_iff view.sorted h

end PortStateView

/-! ## Capabilities -/

/-- `CapabilityBinding`. -/
structure CapabilityBinding where
  subject : SubjectKey
  capability : CapabilityId
  value : CapabilityValue

/-- The sort key of a binding: subject, then capability. -/
def CapabilityBinding.key (binding : CapabilityBinding) : SubjectKey ×ₗ CapabilityId :=
  toLex (binding.subject, binding.capability)

/-- `CapabilityView`: bindings sorted by subject, then capability. -/
@[ext] structure CapabilityView where
  bindings : List CapabilityBinding
  sorted : bindings.Pairwise (·.key ≤ ·.key)

namespace CapabilityView

/-- The constructor `CapabilityView(bindings)`. -/
def ofBindings (bindings : List CapabilityBinding) : CapabilityView :=
  ⟨sortBy CapabilityBinding.key bindings, pairwise_sortBy _ _⟩

/-- `CapabilityView::Lookup`: nothing means the capability is unknown. -/
def lookup (view : CapabilityView) (subject : SubjectKey) (capability : CapabilityId) :
    Option CapabilityValue :=
  match find? CapabilityBinding.key view.bindings (toLex (subject, capability)) with
  | none => none
  | some binding => some binding.value

/-- A value found was published by some binding. -/
theorem exists_of_lookup {view : CapabilityView} {subject : SubjectKey} {capability : CapabilityId}
    {value : CapabilityValue} (h : view.lookup subject capability = some value) :
    ∃ b ∈ view.bindings, b.subject = subject ∧ b.capability = capability ∧ b.value = value := by
  unfold lookup at h
  split at h
  · cases h
  · next b hb =>
    obtain ⟨hm, hk⟩ := mem_of_find? hb
    obtain ⟨hs, hc⟩ := Prod.mk.inj (toLex.injective hk)
    exact ⟨b, hm, hs, hc, Option.some.inj h⟩

/-- With one binding per subject and capability, lookup is publication. -/
theorem lookup_eq_some_iff {view : CapabilityView} (hn : (view.bindings.map (·.key)).Nodup)
    {subject : SubjectKey} {capability : CapabilityId} {value : CapabilityValue} :
    view.lookup subject capability = some value ↔
      ∃ b ∈ view.bindings, b.subject = subject ∧ b.capability = capability ∧ b.value = value := by
  refine ⟨exists_of_lookup, ?_⟩
  rintro ⟨b, hb, rfl, rfl, rfl⟩
  have hf : find? CapabilityBinding.key view.bindings b.key = some b :=
    (find?_eq_some_iff (pairwise_lt_of_nodup view.sorted hn)).mpr ⟨hb, rfl⟩
  unfold lookup
  rw [show toLex (b.subject, b.capability) = b.key from rfl, hf]

end CapabilityView

/-! ## Failure domains -/

/-- `FailureDomainRecord`. -/
structure FailureDomainRecord where
  domain : FailureDomainId
  riskClass : FailureDomainClass
  members : List SubjectKey

/-- `FailureDomainView::Membership`. -/
structure Membership where
  known : Bool
  domains : List FailureDomainId

/-- `FailureDomainView`: domains sorted by identity, and the sorted memberships they publish. -/
structure FailureDomainView where
  domains : List FailureDomainRecord
  membership : List (SubjectKey ×ₗ FailureDomainId)
  membershipComplete : Bool
  sorted : domains.Pairwise (·.domain ≤ ·.domain)
  membership_sorted : membership.Pairwise (· < ·)
  mem_membership : ∀ s d, toLex (s, d) ∈ membership ↔ ∃ r ∈ domains, r.domain = d ∧ s ∈ r.members

namespace FailureDomainView

/-- The memberships of the domains, in the order of the records. -/
def publishedMembership (domains : List FailureDomainRecord) : List (SubjectKey ×ₗ FailureDomainId) :=
  domains.flatMap fun record => record.members.map fun member => toLex (member, record.domain)

theorem mem_publishedMembership {domains : List FailureDomainRecord} {s : SubjectKey}
    {d : FailureDomainId} : toLex (s, d) ∈ publishedMembership domains ↔
      ∃ r ∈ domains, r.domain = d ∧ s ∈ r.members := by
  simp only [publishedMembership, List.mem_flatMap, List.mem_map]
  constructor
  · rintro ⟨r, hr, m, hm, he⟩
    obtain ⟨rfl, rfl⟩ := Prod.mk.inj (toLex.injective he)
    exact ⟨r, hr, rfl, hm⟩
  · rintro ⟨r, hr, rfl, hm⟩
    exact ⟨r, hr, s, hm, rfl⟩

/-- The constructor `FailureDomainView(domains, membership_complete)`. -/
def ofDomains (domains : List FailureDomainRecord) (membershipComplete : Bool) :
    FailureDomainView where
  domains := sortBy FailureDomainRecord.domain domains
  membership := unique (sortBy id (publishedMembership (sortBy FailureDomainRecord.domain domains)))
  membershipComplete := membershipComplete
  sorted := pairwise_sortBy _ _
  membership_sorted := pairwise_lt_unique (pairwise_sortBy id _)
  mem_membership _ _ := by
    rw [mem_unique (pairwise_sortBy id _), mem_sortBy, mem_publishedMembership]

/-- `FailureDomainView::FindDomain`. -/
def findDomain (view : FailureDomainView) (domain : FailureDomainId) : Option FailureDomainRecord :=
  find? FailureDomainRecord.domain view.domains domain

/-- `FailureDomainView::MembershipOf`. -/
def membershipOf (view : FailureDomainView) (subject : SubjectKey) : Membership :=
  let key (entry : SubjectKey ×ₗ FailureDomainId) : SubjectKey := (ofLex entry).1
  let cursor := view.membership.drop (lowerBound key view.membership subject)
  let entries := cursor.takeWhile fun entry => decide (key entry = subject)
  { known := !entries.isEmpty || view.membershipComplete
    domains := entries.map fun entry => (ofLex entry).2 }

variable {view : FailureDomainView} {subject : SubjectKey} {domain : FailureDomainId}

/-- With one record per domain, lookup is publication. -/
theorem findDomain_eq_some_iff (h : (view.domains.map (·.domain)).Nodup)
    {record : FailureDomainRecord} :
    view.findDomain domain = some record ↔ record ∈ view.domains ∧ record.domain = domain :=
  find?_eq_some_iff (pairwise_lt_of_nodup view.sorted h)

/-- **The memberships of a subject** are the domains that publish it as a member. -/
theorem mem_membershipOf : domain ∈ (view.membershipOf subject).domains ↔
    ∃ r ∈ view.domains, r.domain = domain ∧ subject ∈ r.members := by
  rw [← view.mem_membership]
  have hs : view.membership.Pairwise (fun a b => (ofLex a).1 ≤ (ofLex b).1) :=
    view.membership_sorted.imp fun h => Prod.Lex.monotone_fst _ _ h.le
  simp only [membershipOf, List.mem_map]
  constructor
  · rintro ⟨entry, he, rfl⟩
    obtain ⟨hm, rfl⟩ := (mem_segment hs).mp he
    exact hm
  · intro h
    exact ⟨_, (mem_segment hs).mpr ⟨h, rfl⟩, rfl⟩

/-- A membership is known when some domain publishes the subject or the memberships are complete. -/
theorem membershipOf_known_iff : (view.membershipOf subject).known = true ↔
    (∃ r ∈ view.domains, subject ∈ r.members) ∨ view.membershipComplete = true := by
  have hk : (view.membershipOf subject).known =
      (!(view.membershipOf subject).domains.isEmpty || view.membershipComplete) := by
    simp [membershipOf]
  rw [hk, Bool.or_eq_true, Bool.not_eq_true', List.isEmpty_eq_false_iff_exists_mem]
  refine or_congr_left ⟨?_, ?_⟩
  · rintro ⟨d, hd⟩
    obtain ⟨r, hr, -, hm⟩ := mem_membershipOf.mp hd
    exact ⟨r, hr, hm⟩
  · rintro ⟨r, hr, hm⟩
    exact ⟨r.domain, mem_membershipOf.mpr ⟨r, hr, rfl, hm⟩⟩

end FailureDomainView

/-! ## Generations and evidence -/

/-- `SnapshotGenerations`. -/
structure SnapshotGenerations where
  topology : TopologyGeneration := default
  linkState : LinkStateGeneration := default
  ports : PortGeneration := default
  capabilities : CapabilityGeneration := default
  failureDomains : FailureDomainGeneration := default
  epoch : FabricEpoch := default
  policy : PolicyGeneration := default
  constraints : ConstraintGeneration := default
  deriving DecidableEq

/-- `SnapshotGenerations::Encode`. -/
def SnapshotGenerations.encode (g : SnapshotGenerations) (writer : ByteWriter) : ByteWriter :=
  ((((((((writer.u64 g.topology.value).u64 g.linkState.value).u64 g.ports.value).u64
    g.capabilities.value).u64 g.failureDomains.value).u64 g.epoch.value).u64
    g.policy.value).u64 g.constraints.value)

/-- `EvidenceVector`: the exact input generations a plan was computed from. -/
structure EvidenceVector where
  snapshot : SnapshotId := default
  generations : SnapshotGenerations := {}
  source : EvidenceSource := .synthetic
  publishSequence : PlanPublishSequence := default
  deriving DecidableEq

/-- `EvidenceVector::Encode`. -/
def EvidenceVector.encode (e : EvidenceVector) (writer : ByteWriter) : ByteWriter :=
  ((e.generations.encode (writer.id e.snapshot)).u32 e.source.value).u64 e.publishSequence.value

/-- `ClassifyEvidence`: the most severe change of the generations. -/
def classifyEvidence (prior current : EvidenceVector) : Currentness :=
  let fold (worst : Currentness) (moved : Bool) (stale : Currentness) : Currentness :=
    if moved then moreSevere worst stale else worst
  let p := prior.generations
  let c := current.generations
  let worst := fold .current (p.topology != c.topology) .staleTopology
  let worst := fold worst (p.linkState != c.linkState) .staleLinkState
  let worst := fold worst (p.ports != c.ports) .stalePortState
  let worst := fold worst (p.capabilities != c.capabilities) .staleCapability
  let worst := fold worst (p.failureDomains != c.failureDomains) .staleFailureDomain
  let worst := fold worst (p.policy != c.policy) .stalePolicy
  fold worst (p.epoch != c.epoch) .staleEpoch

/-- **Evidence is current** exactly when none of the classified generations moved; the constraint
generation is not classified. -/
theorem classifyEvidence_eq_current_iff {prior current : EvidenceVector} :
    classifyEvidence prior current = .current ↔
      prior.generations =
        { current.generations with constraints := prior.generations.constraints } := by
  have hfold (worst stale : Currentness) (moved : Bool) (hs : stale ≠ .current) :
      (if moved then moreSevere worst stale else worst) = .current ↔
        worst = .current ∧ moved = false := by
    cases moved <;> simp [hs]
  simp only [classifyEvidence]
  rw [hfold _ _ _ (by decide), hfold _ _ _ (by decide), hfold _ _ _ (by decide),
    hfold _ _ _ (by decide), hfold _ _ _ (by decide), hfold _ _ _ (by decide),
    hfold _ _ _ (by decide)]
  obtain ⟨_, ⟨⟩, _, _⟩ := prior
  simp only [bne_eq_false_iff_eq, SnapshotGenerations.mk.injEq]
  tauto

end PathPlanner
