import PathPlanner.Codec.Enumerations

/-!
# What validation promises

An accepted request is meant to name identities that are not nil, in lists without repetition and
within their limits, and to hold declared values in its enumerations. Validation checks this but for
five rules: nothing looks at the number of stages with alternatives, at the kind of a stage, at the
class of an endpoint, and at repetitions of a stage or of a capability requirement.

The identities of the caller and the expectations that are not asked for are absent when they are
nil, and are not among those that a request names.

## Main definitions

* `PlanningRequest.IsSound`: what an accepted request is meant to keep to
* `PlanningRequest.KeepsUnchecked`: the rules that validation does not check

## Main results

* `validateRequest_isSound_iff`: **when an accepted request is sound**
* `not_validateRequest_isSound_twoSets`: more stages with alternatives than their limit
-/

namespace PathPlanner

open SortedList

/-- The stages that name a set of alternatives. -/
def ConstraintSet.anySets (c : ConstraintSet) : List TransitStage :=
  c.requiredTransit.filter fun stage => stage.kind = .anyOf

namespace PlanningRequest

variable (request : PlanningRequest) (limits : ResourceLimits)

/-- The identities that the request names are not nil. -/
structure NamesIdentities : Prop where
  id : request.id.isValid = true
  source : request.source.id.isValid = true
  destination : request.destination.id.isValid = true
  constraints : request.constraints.id.isValid = true
  nodes : ∀ id ∈ request.constraints.forbiddenNodes, id.isValid = true
  links : ∀ id ∈ request.constraints.forbiddenLinks, id.isValid = true
  ports : ∀ id ∈ request.constraints.forbiddenPorts, id.isValid = true
  domains : ∀ id ∈ request.constraints.forbiddenFailureDomains, id.isValid = true
  classes : ∀ id ∈ request.constraints.forbiddenFailureDomainClasses, id.isValid = true
  transit : ∀ stage ∈ request.constraints.requiredTransit, ∀ id ∈ stage.alternatives,
    id.isValid = true
  capabilities : ∀ requirement ∈ request.constraints.requiredCapabilities,
    requirement.capability.isValid = true
  locality : ∀ id ∈ request.policy.localityScope, id.isValid = true
  snapshot : request.expectSnapshot = true → request.expectedSnapshot.isValid = true

/-- No list of the request repeats an entry. -/
structure HasDistinctEntries : Prop where
  nodes : request.constraints.forbiddenNodes.Nodup
  links : request.constraints.forbiddenLinks.Nodup
  ports : request.constraints.forbiddenPorts.Nodup
  domains : request.constraints.forbiddenFailureDomains.Nodup
  classes : request.constraints.forbiddenFailureDomainClasses.Nodup
  stages : request.constraints.requiredTransit.Nodup
  alternatives : ∀ stage ∈ request.constraints.requiredTransit, stage.alternatives.Nodup
  capabilities : request.constraints.requiredCapabilities.Nodup
  locality : request.policy.localityScope.Nodup

/-- Every list of the request is within its limit. -/
structure KeepsLimits : Prop where
  entries : request.constraints.entryCount ≤ limits.maxConstraintsTotal.toNat
  nodes : request.constraints.forbiddenNodes.length ≤ limits.maxForbiddenIds.toNat
  links : request.constraints.forbiddenLinks.length ≤ limits.maxForbiddenIds.toNat
  ports : request.constraints.forbiddenPorts.length ≤ limits.maxForbiddenIds.toNat
  domains : request.constraints.forbiddenFailureDomains.length ≤ limits.maxForbiddenIds.toNat
  classes : request.constraints.forbiddenFailureDomainClasses.length ≤
    limits.maxForbiddenDomainClasses.toNat
  stages : request.constraints.requiredTransit.length ≤ limits.maxRequiredIds.toNat
  anySets : request.constraints.anySets.length ≤ limits.maxRequiredAnySets.toNat
  alternatives : ∀ stage ∈ request.constraints.requiredTransit,
    stage.alternatives.length ≤ limits.maxMembersInAnySet.toNat
  capabilities : request.constraints.requiredCapabilities.length ≤
    limits.maxCapabilityRequirements.toNat
  locality : request.policy.localityScope.length ≤ limits.maxForbiddenIds.toNat

/-- The enumerations of the request have declared values. -/
structure IsDeclared : Prop where
  layer : WireEnum.IsKnown request.constraints.layer
  mode : WireEnum.IsKnown request.mode
  authority : WireEnum.IsKnown request.policy.authorityValidation
  source : WireEnum.IsKnown request.source.endpointClass
  destination : WireEnum.IsKnown request.destination.endpointClass
  stages : ∀ stage ∈ request.constraints.requiredTransit, WireEnum.IsKnown stage.kind
  scopes : ∀ requirement ∈ request.constraints.requiredCapabilities,
    WireEnum.IsKnown requirement.scope
  comparators : ∀ requirement ∈ request.constraints.requiredCapabilities,
    WireEnum.IsKnown requirement.comparator

/-- What an accepted request is meant to keep to. -/
structure IsSound : Prop where
  identities : request.NamesIdentities
  distinct : request.HasDistinctEntries
  counts : request.KeepsLimits limits
  declared : request.IsDeclared
  exact_stages : ∀ stage ∈ request.constraints.requiredTransit, stage.kind = .exact →
    ∃ node, stage.alternatives = [node]
  candidates : 1 ≤ request.maxCandidates.toNat ∧
    request.maxCandidates.toNat ≤ limits.maxCandidatesPerRequest.toNat
  hops : ∀ hops ∈ request.constraints.maxHops, hops.value ≤ limits.maxHops.toNat
  locality : request.policy.costModel.localityPenalty.value ≠ 0 →
    request.policy.localityScope ≠ []

/-- The rules that validation does not check. -/
structure KeepsUnchecked : Prop where
  anySets : request.constraints.anySets.length ≤ limits.maxRequiredAnySets.toNat
  kinds : ∀ stage ∈ request.constraints.requiredTransit, WireEnum.IsKnown stage.kind
  source : WireEnum.IsKnown request.source.endpointClass
  destination : WireEnum.IsKnown request.destination.endpointClass
  stages : request.constraints.requiredTransit.Nodup
  capabilities : request.constraints.requiredCapabilities.Nodup

end PlanningRequest

/-! ## Checks -/

section Checks

variable {request : PlanningRequest} {limits : ResourceLimits}

/-- A check that no identity of a list is nil. -/
theorem any_not_isValid_eq_false_iff {Tag : Type} {n : ℕ} {ids : List (FixedId Tag n)} :
    ids.any (!·.isValid) = false ↔ ∀ id ∈ ids, id.isValid = true := by
  simp [List.any_eq_false]

theorem exceeds_eq_false_iff {count : ℕ} {limit : UInt32} :
    exceeds count limit = false ↔ count ≤ limit.toNat := by
  unfold exceeds
  rw [decide_eq_false_iff_not, not_lt]

/-- The checks of a stage. -/
theorem transitStageError_eq_none {stage : TransitStage} (h : transitStageError limits stage = none) :
    (stage.kind = .exact → ∃ node, stage.alternatives = [node]) ∧
      stage.alternatives.length ≤ limits.maxMembersInAnySet.toNat ∧
      (∀ id ∈ stage.alternatives, id.isValid = true) ∧ stage.alternatives.Nodup := by
  have hs := firstProblem_eq_none_iff.mp h
  simp only [List.forall_mem_cons, decide_eq_false_iff_not, exceeds_eq_false_iff,
    any_not_isValid_eq_false_iff, hasDuplicate_eq_false_iff, not_and, not_not] at hs
  obtain ⟨-, hexact, hlength, hvalid, hnodup, -⟩ := hs
  exact ⟨fun hkind => List.length_eq_one_iff.mp (hexact hkind), hlength, hvalid, hnodup⟩

end Checks

/-- **When an accepted request is sound**: it keeps to the rules that validation does not check. -/
theorem validateRequest_isSound_iff {request : PlanningRequest} {limits : ResourceLimits}
    (h : validateRequest request limits = none) :
    request.IsSound limits ↔ request.KeepsUnchecked limits := by
  constructor
  · intro hs
    exact ⟨hs.counts.anySets, hs.declared.stages, hs.declared.source, hs.declared.destination,
      hs.distinct.stages, hs.distinct.capabilities⟩
  · intro hk
    obtain ⟨hshape, ⟨hforbidden, hstages, hbounds⟩, hpolicy, hexpected⟩ :=
      validateRequest_eq_none_iff.mp h
    have hstages := fun stage hs => transitStageError_eq_none (hstages stage hs)
    have hforbidden := firstProblem_eq_none_iff.mp hforbidden
    have hshape := firstProblem_eq_none_iff.mp hshape
    have hbounds := firstProblem_eq_none_iff.mp hbounds
    have hpolicy := firstProblem_eq_none_iff.mp hpolicy
    have hexpected := firstProblem_eq_none_iff.mp hexpected
    simp only [List.forall_mem_cons, Bool.or_eq_false_iff, exceeds_eq_false_iff,
      any_not_isValid_eq_false_iff, hasDuplicate_eq_false_iff, Bool.not_eq_false'] at hforbidden
    simp only [List.forall_mem_cons, Bool.not_eq_false', decide_eq_false_iff_not] at hshape
    simp only [List.forall_mem_cons, decide_eq_false_iff_not] at hbounds
    simp only [List.forall_mem_cons, exceeds_eq_false_iff, any_not_isValid_eq_false_iff,
      hasDuplicate_eq_false_iff, decide_eq_false_iff_not] at hpolicy
    simp only [List.forall_mem_cons, Bool.and_eq_false_imp] at hexpected
    obtain ⟨hid, hentries, ⟨⟨⟨⟨hnodes, hlinks⟩, hports⟩, hdomains⟩, hclasses⟩, hcount, hrequirements,
      hnodes', hlinks', hports', hdomains', hclasses',
      ⟨⟨⟨⟨hnodes'', hlinks''⟩, hports''⟩, hdomains''⟩, hclasses''⟩, -⟩ := hforbidden
    obtain ⟨hrequest, hsource, hdestination, hzero, hceiling, hlayer, hmode, hauthority, hencoding,
      -⟩ := hshape
    obtain ⟨hcapabilities, hhops, -⟩ := hbounds
    obtain ⟨hlocality, hlocality', hlocality'', hpenalty, -⟩ := hpolicy
    have hencoding (requirement : CapabilityRequirement)
        (hr : requirement ∈ request.constraints.requiredCapabilities) :
        WireEnum.IsKnown requirement.scope ∧ WireEnum.IsKnown requirement.comparator := by
      have hknown : isKnownEnumValue capabilityScopeNames requirement.scope.value = true ∧
          isKnownEnumValue capabilityComparatorNames requirement.comparator.value = true := by
        simpa using List.any_eq_false.mp hencoding requirement hr
      exact hknown
    exact {
      identities := {
        id := hrequest
        source := hsource
        destination := hdestination
        constraints := hid
        nodes := hnodes'
        links := hlinks'
        ports := hports'
        domains := hdomains'
        classes := hclasses'
        transit := fun stage hs => (hstages stage hs).2.2.1
        capabilities := fun requirement hr => by
          simpa using List.any_eq_false.mp hcapabilities requirement hr
        locality := hlocality'
        snapshot := fun hs => by simpa using hexpected.2.1 hs }
      distinct := {
        nodes := hnodes''
        links := hlinks''
        ports := hports''
        domains := hdomains''
        classes := hclasses''
        stages := hk.stages
        alternatives := fun stage hs => (hstages stage hs).2.2.2
        capabilities := hk.capabilities
        locality := hlocality'' }
      counts := {
        entries := hentries
        nodes := hnodes
        links := hlinks
        ports := hports
        domains := hdomains
        classes := hclasses
        stages := hcount
        anySets := hk.anySets
        alternatives := fun stage hs => (hstages stage hs).2.1
        capabilities := hrequirements
        locality := hlocality }
      declared := {
        layer := hlayer
        mode := hmode
        authority := hauthority
        source := hk.source
        destination := hk.destination
        stages := hk.kinds
        scopes := fun requirement hr => (hencoding requirement hr).1
        comparators := fun requirement hr => (hencoding requirement hr).2 }
      exact_stages := fun stage hs => (hstages stage hs).1
      candidates := validateRequest_candidates h
      hops := fun hops hh => validateRequest_maxHops h hh
      locality := fun hne hempty => hpenalty ⟨hne, List.isEmpty_iff.mpr hempty⟩ }

/-- A request through one of two nodes, and then through one of two others. -/
def twoSets : PlanningRequest :=
  { PlanningRequest.between 1 2 with
    constraints := {
      id := .tagged 0 1
      requiredTransit :=
        [⟨.anyOf, [.tagged 0 3, .tagged 0 4]⟩, ⟨.anyOf, [.tagged 0 5, .tagged 0 6]⟩] } }

/-- It is sound under the default limits. -/
theorem validateRequest_isSound_iff_twoSets : twoSets.IsSound {} := by
  have hstages : twoSets.constraints.requiredTransit.Nodup :=
    (List.pairwise_pair (R := (· ≠ ·))).mpr fun h =>
      absurd (congrArg TransitStage.alternatives h) (by decide +kernel)
  exact (validateRequest_isSound_iff (by decide +kernel)).mpr
    ⟨by decide +kernel, by decide +kernel, by decide +kernel, by decide +kernel, hstages, .nil⟩

/-- It is accepted under a limit of one stage with alternatives. -/
theorem not_validateRequest_isSound_twoSets :
    validateLimits { maxRequiredAnySets := 1 } = none ∧
      validateRequest twoSets { maxRequiredAnySets := 1 } = none ∧
      ¬ twoSets.IsSound { maxRequiredAnySets := 1 } := by
  refine ⟨by decide +kernel, by decide +kernel, fun hs => ?_⟩
  have hsets := hs.counts.anySets
  revert hsets
  decide +kernel

end PathPlanner
