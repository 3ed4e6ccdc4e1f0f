import PathPlanner.Snapshot.Buildable

/-!
# Builders with the same records

The records of a snapshot are published in the order of their keys, so that a builder that holds the
same records in another order should build the same snapshot. It does when the keys are different.
A repeated key is found by comparing neighbours in the order of the caller: the build then fails in
some orders, and in others a snapshot with a repeated key is published.

## Main definitions

* `FabricSnapshotBuilder.Rearranges`: the same records in another order
* `FabricSnapshotBuilder.HasDistinctKeys`, `FabricSnapshotBuilder.IsCrowded`: how often keys are
  repeated
* `FabricSnapshotBuilder.IsUnbuildable`: no order of the records can be built

## Main results

* `FabricSnapshotBuilder.Rearranges.build_eq`: **different keys** make the order irrelevant
* `FabricSnapshotBuilder.exists_rearranges_of_not_hasDistinctKeys`: a repetition that is found
* `FabricSnapshotBuilder.exists_rearranges_build_iff`: when some order can be built
-/

namespace PathPlanner

open SortedList Spread

namespace FailureDomainRecord

/-- The same failure domain, with its members in another order. -/
structure SameMembers (d d' : FailureDomainRecord) : Prop where
  domain : d.domain = d'.domain
  riskClass : d.riskClass = d'.riskClass
  members : d.members.Perm d'.members

theorem SameMembers.forall₂_trans {ds ds' ds'' : List FailureDomainRecord}
    (h : List.Forall₂ SameMembers ds ds') (h' : List.Forall₂ SameMembers ds' ds'') :
    List.Forall₂ SameMembers ds ds'' := by
  induction h generalizing ds'' with
  | nil => exact h'
  | cons hd _ ih =>
    cases h' with
    | cons hd' htail =>
      exact .cons ⟨hd.domain.trans hd'.domain, hd.riskClass.trans hd'.riskClass,
        hd.members.trans hd'.members⟩ (ih htail)

/-- The same failure domains in another order, each with its members in another order. -/
def SameDomains (ds ds' : List FailureDomainRecord) : Prop :=
  ∃ domains, ds.Perm domains ∧ List.Forall₂ SameMembers domains ds'

theorem SameDomains.refl (ds : List FailureDomainRecord) : SameDomains ds ds :=
  ⟨ds, .refl _, List.forall₂_same.mpr fun _ _ => ⟨rfl, rfl, .refl _⟩⟩

theorem SameDomains.of_perm {ds ds' : List FailureDomainRecord} (h : ds.Perm ds') :
    SameDomains ds ds' :=
  ⟨ds', h, List.forall₂_same.mpr fun _ _ => ⟨rfl, rfl, .refl _⟩⟩

theorem SameDomains.symm {ds ds' : List FailureDomainRecord} (h : SameDomains ds ds') :
    SameDomains ds' ds := by
  obtain ⟨domains, hperm, hsame⟩ := h
  obtain ⟨domains', hsame', hperm'⟩ := List.perm_comp_forall₂ hperm hsame
  exact ⟨domains', hperm'.symm, hsame'.flip.imp fun _ _ hd =>
    ⟨hd.domain.symm, hd.riskClass.symm, hd.members.symm⟩⟩

theorem SameDomains.trans {ds ds' ds'' : List FailureDomainRecord} (h : SameDomains ds ds')
    (h' : SameDomains ds' ds'') : SameDomains ds ds'' := by
  obtain ⟨first, hperm, hsame⟩ := h
  obtain ⟨second, hperm', hsame'⟩ := h'
  -- the two orders first, and then the members
  have hcomp : (Relation.Comp (List.Forall₂ SameMembers) List.Perm) first second :=
    ⟨ds', hsame, hperm'⟩
  rw [List.forall₂_comp_perm_eq_perm_comp_forall₂] at hcomp
  obtain ⟨between, hbetween, hmembers⟩ := hcomp
  exact ⟨between, hperm.trans hbetween, SameMembers.forall₂_trans hmembers hsame'⟩

end FailureDomainRecord

namespace FabricSnapshotBuilder

/-- The second builder holds the records of the first one in another order. The ports of a node are
stored sorted. -/
structure Rearranges (b b' : FabricSnapshotBuilder) : Prop where
  limits : b.limits = b'.limits
  generations : b.generations = b'.generations
  evidenceSource : b.evidenceSource = b'.evidenceSource
  membershipComplete : b.membershipComplete = b'.membershipComplete
  nodes : b.nodes.Perm b'.nodes
  edges : b.edges.Perm b'.edges
  endpoints : b.endpoints.Perm b'.endpoints
  linkStates : b.linkStates.Perm b'.linkStates
  portStates : b.portStates.Perm b'.portStates
  capabilities : b.capabilities.Perm b'.capabilities
  failureDomains : FailureDomainRecord.SameDomains b.failureDomains b'.failureDomains

/-- The consumed records have different keys. -/
structure HasDistinctKeys (b : FabricSnapshotBuilder) : Prop where
  links : (b.linkStates.map (·.link)).Nodup
  ports : (b.portStates.map (·.port)).Nodup
  bindings : (b.capabilities.map (·.key)).Nodup
  domains : (b.failureDomains.map (·.domain)).Nodup

/-- Some key of the consumed records belongs to more than half of its list, rounded up. -/
def IsCrowded (b : FabricSnapshotBuilder) : Prop :=
  Spread.IsCrowded LinkStateRecord.link b.linkStates ∨
    Spread.IsCrowded PortStateRecord.port b.portStates ∨
    Spread.IsCrowded CapabilityBinding.key b.capabilities ∨
    Spread.IsCrowded FailureDomainRecord.domain b.failureDomains

variable {b b' : FabricSnapshotBuilder} {sha : List UInt8 → Sha256Digest}

/-! ## What does not depend on the order -/

/-- What does not look at the order of the members is the same for corresponding failure domains. -/
theorem map_eq_of_sameMembers {β : Type} {f : FailureDomainRecord → β}
    {ds ds' : List FailureDomainRecord} (h : List.Forall₂ FailureDomainRecord.SameMembers ds ds')
    (hf : ∀ d d' : FailureDomainRecord, d.SameMembers d' → f d = f d') : ds.map f = ds'.map f := by
  rw [← List.forall₂_eq_eq_eq, List.forall₂_map_left_iff, List.forall₂_map_right_iff]
  exact h.imp hf

theorem Rearranges.map_perm {β : Type} {f : FailureDomainRecord → β} (h : b.Rearranges b')
    (hf : ∀ d d' : FailureDomainRecord, d.SameMembers d' → f d = f d') :
    (b.failureDomains.map f).Perm (b'.failureDomains.map f) := by
  obtain ⟨domains, hperm, hsame⟩ := h.failureDomains
  exact map_eq_of_sameMembers hsame hf ▸ hperm.map f

theorem Rearranges.domains_perm (h : b.Rearranges b') :
    (b.failureDomains.map (·.domain)).Perm (b'.failureDomains.map (·.domain)) :=
  h.map_perm fun _ _ hd => hd.domain

theorem HasDistinctKeys.rearrange (hb : b.HasDistinctKeys) (h : b.Rearranges b') :
    b'.HasDistinctKeys where
  links := (h.linkStates.map LinkStateRecord.link).nodup_iff.mp hb.links
  ports := (h.portStates.map PortStateRecord.port).nodup_iff.mp hb.ports
  bindings := (h.capabilities.map CapabilityBinding.key).nodup_iff.mp hb.bindings
  domains := h.domains_perm.nodup_iff.mp hb.domains

/-- A normalized failure domain does not depend on the order of its members. -/
theorem normalizeDomain_eq (d d' : FailureDomainRecord) (h : d.SameMembers d') :
    normalizeDomain d = normalizeDomain d' := by
  unfold normalizeDomain
  rw [sortBy_id_eq_of_perm h.members]
  cases d
  cases d'
  cases h.domain
  cases h.riskClass
  rfl

theorem encodedSize_eq_of_sameMembers (d d' : FailureDomainRecord) (h : d.SameMembers d') :
    d.encodedSize = d'.encodedSize := by
  unfold FailureDomainRecord.encodedSize
  rw [h.members.dedup.length_eq]

/-- **The checks** that do not depend on the order pass for both. -/
theorem IsConsistent.rearrange (hb : b.IsConsistent) (h : b.Rearranges b') : b'.IsConsistent := by
  have hnode {P : NodeRecord → Prop} (hn : ∃ n ∈ b.nodes, P n) : ∃ n ∈ b'.nodes, P n := by
    obtain ⟨n, hn, hp⟩ := hn
    exact ⟨n, h.nodes.mem_iff.mp hn, hp⟩
  have hdomains : (b.failureDomains.map (failureDomainError b.limits)).Perm
      (b'.failureDomains.map (failureDomainError b.limits)) := h.map_perm fun d d' hd => by
    unfold failureDomainError
    rw [hd.domain, hd.members.length_eq]
  refine {
    limits := h.limits ▸ hb.limits
    nodes := (h.nodes.map NodeRecord.id).nodup_iff.mp hb.nodes
    edges := (h.edges.map EdgeRecord.id).nodup_iff.mp hb.edges
    endpoints := (h.endpoints.map EndpointRecord.id).nodup_iff.mp hb.endpoints
    edge_source := fun e he => hnode (hb.edge_source e (h.edges.mem_iff.mpr he))
    edge_target := fun e he => hnode (hb.edge_target e (h.edges.mem_iff.mpr he))
    endpoint_node := fun e he => hnode (hb.endpoint_node e (h.endpoints.mem_iff.mpr he))
    counts := ?_
    domains := fun d hd => ?_ }
  · have hcounts := hb.counts
    have hlength := h.domains_perm.length_eq
    rw [List.length_map, List.length_map] at hlength
    unfold recordLimitError at hcounts ⊢
    rw [h.linkStates.length_eq, h.portStates.length_eq, h.capabilities.length_eq, hlength,
      h.limits] at hcounts
    exact hcounts
  · have hmem := hdomains.mem_iff.mpr (List.mem_map_of_mem hd)
    obtain ⟨d₀, hd₀, heq⟩ := List.mem_map.mp hmem
    rw [← h.limits, ← heq]
    exact hb.domains d₀ hd₀

/-- **The sizes** do not depend on the order. -/
theorem Rearranges.encodedSize_eq (h : b.Rearranges b') :
    b.content.encodedSize = b'.content.encodedSize ∧
      b.content.recordCount = b'.content.recordCount := by
  have hnodes := (h.nodes.map NodeRecord.encodedSize).sum_eq
  have hdomains := (h.map_perm encodedSize_eq_of_sameMembers).sum_eq
  have hlength := h.domains_perm.length_eq
  rw [List.length_map, List.length_map] at hlength
  unfold FabricContent.encodedSize FabricContent.recordCount content
  dsimp only
  rw [hnodes, hdomains, hlength, h.nodes.length_eq, h.edges.length_eq, h.endpoints.length_eq,
    h.linkStates.length_eq, h.portStates.length_eq, h.capabilities.length_eq]
  exact ⟨rfl, rfl⟩

/-- **The word** does not depend on the order when keys are different. -/
theorem Rearranges.word_eq (h : b.Rearranges b') (hb : b.IsConsistent) (hkeys : b.HasDistinctKeys) :
    b.content.word = b'.content.word := by
  have hnormalized : ((b.failureDomains.map normalizeDomain).map (·.domain)).Nodup := by
    rw [List.map_map]
    exact hkeys.domains
  have hlength := h.domains_perm.length_eq
  rw [List.length_map, List.length_map] at hlength
  unfold FabricContent.word content
  dsimp only
  rw [h.generations, h.evidenceSource, h.membershipComplete, hlength,
    sortBy_eq_of_perm h.nodes hb.nodes, sortBy_eq_of_perm h.edges hb.edges,
    sortBy_eq_of_perm h.endpoints hb.endpoints, sortBy_eq_of_perm h.linkStates hkeys.links,
    sortBy_eq_of_perm h.portStates hkeys.ports, sortBy_eq_of_perm h.capabilities hkeys.bindings,
    sortBy_eq_of_perm (h.map_perm normalizeDomain_eq) hnormalized]

theorem Rearranges.symm (h : b.Rearranges b') : b'.Rearranges b where
  limits := h.limits.symm
  generations := h.generations.symm
  evidenceSource := h.evidenceSource.symm
  membershipComplete := h.membershipComplete.symm
  nodes := h.nodes.symm
  edges := h.edges.symm
  endpoints := h.endpoints.symm
  linkStates := h.linkStates.symm
  portStates := h.portStates.symm
  capabilities := h.capabilities.symm
  failureDomains := h.failureDomains.symm

/-! ## What is built -/

theorem toOption_eq_none_iff {ε α : Type} {x : Except ε α} :
    x.toOption = none ↔ ¬ ∃ a, x = .ok a := by
  cases x with
  | error e => simp [Except.toOption]
  | ok a => simp [Except.toOption]

theorem toOption_eq_some_iff {ε α : Type} {x : Except ε α} {a : α} :
    x.toOption = some a ↔ x = .ok a := by
  cases x with
  | error e => simp [Except.toOption]
  | ok a => simp [Except.toOption]

/-- Builders with one word, when both can build, build the same snapshot. -/
theorem eq_of_build {s s' : FabricSnapshot} (hlimits : b.limits = b'.limits)
    (hword : b.content.word = b'.content.word) (h : b.build sha = .ok s)
    (h' : b'.build sha = .ok s') : s = s' := by
  have hpublishes := (records_eq_ok (records_of_build h)).1
  have hpublishes' := (records_eq_ok (records_of_build h')).1
  have hwords : s.word = s'.word := by rw [word_eq hpublishes, word_eq hpublishes', hword]
  have hrecords : s.toSnapshotRecords = s'.toSnapshotRecords :=
    (SnapshotRecords.sameContent_of_word_eq hwords).eq
      (by rw [hpublishes.limits, hpublishes'.limits, hlimits])
  have hdigest : s.digest = s'.digest := by rw [digest_of_build h, digest_of_build h', hwords]
  cases s
  cases s'
  cases hrecords
  cases hdigest
  rfl

/-- **Different keys**: what can be built in one order can be built in another one. -/
theorem exists_build_of_rearranges (h : b.Rearranges b') (hkeys : b.HasDistinctKeys)
    (hbuild : ∃ s, b.build sha = .ok s) : ∃ s, b'.build sha = .ok s := by
  obtain ⟨hb, hfits, hzero⟩ := exists_build_iff.mp hbuild
  obtain ⟨hsize, hcount⟩ := h.encodedSize_eq
  have hkeys' := hkeys.rearrange h
  refine exists_build_iff.mpr ⟨⟨hb.toIsConsistent.rearrange h, ?_⟩, ?_, ?_⟩
  · exact recordDuplicateError_eq_none_iff.mpr ⟨isSpread_of_nodup hkeys'.links,
      isSpread_of_nodup hkeys'.ports, isSpread_of_nodup hkeys'.bindings,
      isSpread_of_nodup hkeys'.domains⟩
  · rwa [← hsize, ← hcount]
  · rwa [← h.word_eq hb.toIsConsistent hkeys]

theorem Rearranges.build_eq (h : b.Rearranges b') (hkeys : b.HasDistinctKeys) :
    (b'.build sha).toOption = (b.build sha).toOption := by
  by_cases hbuild : ∃ s, b.build sha = .ok s
  · obtain ⟨s', hs'⟩ := exists_build_of_rearranges h hkeys hbuild
    obtain ⟨s, hs⟩ := hbuild
    have hb := (exists_build_iff.mp ⟨s, hs⟩).1.toIsConsistent
    rw [hs, hs', eq_of_build h.limits (h.word_eq hb hkeys) hs hs']
  · have hbuild' : ¬ ∃ s, b'.build sha = .ok s := fun hs' =>
      hbuild (exists_build_of_rearranges h.symm (hkeys.rearrange h) hs')
    rw [toOption_eq_none_iff.mpr hbuild, toOption_eq_none_iff.mpr hbuild']

/-! ## Repeated keys -/

theorem Rearranges.refl (b : FabricSnapshotBuilder) : b.Rearranges b where
  limits := rfl
  generations := rfl
  evidenceSource := rfl
  membershipComplete := rfl
  nodes := .refl _
  edges := .refl _
  endpoints := .refl _
  linkStates := .refl _
  portStates := .refl _
  capabilities := .refl _
  failureDomains := .refl _

/-- The builder with its consumed records in another order. -/
theorem rearranges_consumed {links : List LinkStateRecord} {ports : List PortStateRecord}
    {bindings : List CapabilityBinding} {domains : List FailureDomainRecord}
    (hlinks : links.Perm b.linkStates) (hports : ports.Perm b.portStates)
    (hbindings : bindings.Perm b.capabilities) (hdomains : domains.Perm b.failureDomains) :
    b.Rearranges { b with
      linkStates := links
      portStates := ports
      capabilities := bindings
      failureDomains := domains } :=
  { Rearranges.refl b with
    linkStates := hlinks.symm
    portStates := hports.symm
    capabilities := hbindings.symm
    failureDomains := .of_perm hdomains.symm }

/-- **A repetition that is found**: in some order the two records are neighbours. -/
theorem exists_rearranges_of_not_hasDistinctKeys (h : ¬ b.HasDistinctKeys) :
    ∃ b', b.Rearranges b' ∧ b'.recordDuplicateError ≠ none := by
  by_cases hlinks : (b.linkStates.map (·.link)).Nodup
  · by_cases hports : (b.portStates.map (·.port)).Nodup
    · by_cases hbindings : (b.capabilities.map (·.key)).Nodup
      · by_cases hdomains : (b.failureDomains.map (·.domain)).Nodup
        · exact absurd ⟨hlinks, hports, hbindings, hdomains⟩ h
        · obtain ⟨domains, hperm, hspread⟩ := exists_perm_not_isSpread_iff.mpr hdomains
          exact ⟨_, rearranges_consumed (.refl _) (.refl _) (.refl _) hperm, fun hnone =>
            hspread (recordDuplicateError_eq_none_iff.mp hnone).2.2.2⟩
      · obtain ⟨bindings, hperm, hspread⟩ := exists_perm_not_isSpread_iff.mpr hbindings
        exact ⟨_, rearranges_consumed (.refl _) (.refl _) hperm (.refl _), fun hnone =>
          hspread (recordDuplicateError_eq_none_iff.mp hnone).2.2.1⟩
    · obtain ⟨ports, hperm, hspread⟩ := exists_perm_not_isSpread_iff.mpr hports
      exact ⟨_, rearranges_consumed (.refl _) hperm (.refl _) (.refl _), fun hnone =>
        hspread (recordDuplicateError_eq_none_iff.mp hnone).2.1⟩
  · obtain ⟨links, hperm, hspread⟩ := exists_perm_not_isSpread_iff.mpr hlinks
    exact ⟨_, rearranges_consumed hperm (.refl _) (.refl _) (.refl _), fun hnone =>
      hspread (recordDuplicateError_eq_none_iff.mp hnone).1⟩

/-- **Repetitions that are not found**: in some order no two records of one key are neighbours,
unless a key is too frequent. -/
theorem exists_rearranges_iff_not_isCrowded :
    (∃ b', b.Rearranges b' ∧ b'.recordDuplicateError = none) ↔ ¬ b.IsCrowded := by
  unfold IsCrowded
  simp only [not_or, ← exists_perm_isSpread_iff]
  constructor
  · rintro ⟨b', h, hnone⟩
    obtain ⟨hlinks, hports, hbindings, hdomains⟩ := recordDuplicateError_eq_none_iff.mp hnone
    refine ⟨⟨_, h.linkStates.symm, hlinks⟩, ⟨_, h.portStates.symm, hports⟩,
      ⟨_, h.capabilities.symm, hbindings⟩, ?_⟩
    obtain ⟨domains, hperm, hsame⟩ := h.failureDomains
    exact ⟨domains, hperm.symm, hdomains.of_map_eq
      (map_eq_of_sameMembers hsame fun _ _ hd => hd.domain).symm⟩
  · rintro ⟨⟨links, hlinks, hl⟩, ⟨ports, hports, hp⟩, ⟨bindings, hbindings, hb⟩, domains, hdomains, hd⟩
    exact ⟨_, rearranges_consumed hlinks hports hbindings hdomains,
      recordDuplicateError_eq_none_iff.mpr ⟨hl, hp, hb, hd⟩⟩

/-- Every order in which no repetition is found has a digest of zero. -/
def IsDegenerate (sha : List UInt8 → Sha256Digest) (b : FabricSnapshotBuilder) : Prop :=
  ∀ b', b.Rearranges b' → b'.recordDuplicateError = none → (sha b'.content.word).isZero = true

/-- No order of the records can be built: they fail a check that does not look at the order, or
their encoding is too large, or a key is so frequent that a repetition is always found, or the digest
is always zero. -/
def IsUnbuildable (sha : List UInt8 → Sha256Digest) (b : FabricSnapshotBuilder) : Prop :=
  ¬ b.IsConsistent ∨ 1024 + b.content.recordCount * 128 < b.content.encodedSize ∨ b.IsCrowded ∨
    b.IsDegenerate sha

/-- **What can be built** in some order. -/
theorem exists_rearranges_build_iff :
    (∃ b', b.Rearranges b' ∧ ∃ s, b'.build sha = .ok s) ↔ ¬ b.IsUnbuildable sha := by
  unfold IsUnbuildable
  constructor
  · rintro ⟨b', h, hbuild⟩
    obtain ⟨hb, hfits, hzero⟩ := exists_build_iff.mp hbuild
    obtain ⟨hsize, hcount⟩ := h.encodedSize_eq
    rintro (hinconsistent | hover | hcrowded | hdegenerate)
    · exact hinconsistent (hb.toIsConsistent.rearrange h.symm)
    · rw [hsize, hcount] at hover
      exact absurd hfits (not_le.mpr hover)
    · exact exists_rearranges_iff_not_isCrowded.mp ⟨b', h, hb.duplicates⟩ hcrowded
    · exact Bool.false_ne_true (hzero.symm.trans (hdegenerate b' h hb.duplicates))
  · intro hcond
    simp only [not_or, not_not, not_lt] at hcond
    obtain ⟨hb, hfits, -, hdegenerate⟩ := hcond
    unfold IsDegenerate at hdegenerate
    push Not at hdegenerate
    obtain ⟨b', h, hnone, hzero⟩ := hdegenerate
    obtain ⟨hsize, hcount⟩ := h.encodedSize_eq
    exact ⟨b', h, exists_build_iff.mpr ⟨⟨hb.rearrange h, hnone⟩, hsize ▸ hcount ▸ hfits,
      Bool.eq_false_iff.mpr hzero⟩⟩

/-- A digest that is zero in every order is beyond a frequent key only for a hash that takes it. -/
theorem IsDegenerate.isCrowded_or (h : b.IsDegenerate sha) :
    b.IsCrowded ∨ ∃ bytes, (sha bytes).isZero = true := by
  by_contra hcond
  rw [not_or] at hcond
  obtain ⟨b', hb', hnone⟩ := exists_rearranges_iff_not_isCrowded.mpr hcond.1
  exact hcond.2 ⟨_, h b' hb' hnone⟩

end FabricSnapshotBuilder

end PathPlanner
