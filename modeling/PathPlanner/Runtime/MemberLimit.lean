import PathPlanner.Runtime.Constraints

/-!
# The failure-domain member limit

A request may limit the traversed links of any one failure domain. Without required transit every
candidate respects the limit. The branch for required transit does not look at it, so there the
limit is respected exactly when the path that the stages lead to happens to respect it.

## Main definitions

* `RespectsMemberLimit`: what the limit asks of a path
* `IsTransitPath`: the path that the stages of required transit lead to

## Main results

* `memberLimitRespected_iff`: the test of the enumeration is the published limit
* `RuntimeState.planResult_respectsMemberLimit_iff`: when the candidates respect the limit
* `not_planResult_respectsMemberLimit_sharedDomain`: a path through one failure domain twice
-/

namespace PathPlanner

open Multigraph

/-- The link is a published member of the failure domain. -/
def IsMemberLink (snapshot : FabricSnapshot) (domain : FailureDomainId) (link : LinkId) : Prop :=
  ∃ d ∈ snapshot.failureDomains.domains, d.domain = domain ∧ SubjectKey.forLink link ∈ d.members

instance (snapshot : FabricSnapshot) (domain : FailureDomainId) (link : LinkId) :
    Decidable (IsMemberLink snapshot domain link) :=
  inferInstanceAs (Decidable (∃ d ∈ snapshot.failureDomains.domains, _))

/-- At most `limit` of the traversed links are members of any one failure domain, and where unknown
membership fails closed the membership of every traversed link is known. -/
structure RespectsMemberLimit (snapshot : FabricSnapshot) (limit : ℕ) (failClosed : Bool)
    (path : CandidatePath) : Prop where
  members : ∀ domain, path.hops.countP (fun hop => IsMemberLink snapshot domain hop.link) ≤ limit
  known : failClosed = true → ∀ hop ∈ path.hops,
    HasDomain snapshot (.forLink hop.link) ∨ snapshot.failureDomains.membershipComplete = true

/-- The path that the stages of required transit lead to in the view of a call: the canonically
first one over all choices of alternatives, leg by leg. -/
def IsTransitPath (snapshot : FabricSnapshot) (limits : ResourceLimits) (request : PlanningRequest)
    (path : CandidatePath) : Prop :=
  ∃ source destination built total,
    resolveEndpoint snapshot request.source true = .ok source ∧
    resolveEndpoint snapshot request.destination false = .ok destination ∧
    buildPlanningView snapshot request limits source.node.id destination.node.id = .ok built ∧
    IsStagedOptimum built.view (enumerationOptions limits request built)
      request.constraints.requiredTransit total ∧
    path = buildCandidatePath built.view (built.view.rawPath built.sourceView total)

section View

variable {snapshot : FabricSnapshot} {request : PlanningRequest} {limits : ResourceLimits}
  {view : PlanningView} {u limit : ℕ} {path other : List ℕ} {failClosed : Bool}

/-- **The test of the enumeration** is the limit on the published failure domains. -/
theorem memberLimitRespected_iff (hv : IsCheckedView snapshot request limits view) :
    MemberLimitRespected view limit failClosed path ↔ RespectsMemberLimit snapshot limit failClosed
      (buildCandidatePath view (view.rawPath u path)) := by
  have hmember : ∀ domain k, domain ∈ (view.linkMembership k).domains ↔
      IsMemberLink snapshot domain (buildHop view k).link := fun domain k => by
    unfold PlanningView.linkMembership
    rw [hv.snapshot_eq, FailureDomainView.mem_membershipOf]
    rfl
  have hknown : ∀ k, (view.linkMembership k).known = true ↔
      HasDomain snapshot (.forLink (buildHop view k).link) ∨
        snapshot.failureDomains.membershipComplete = true := fun k => by
    unfold PlanningView.linkMembership
    rw [hv.snapshot_eq]
    exact FailureDomainView.membershipOf_known_iff
  constructor
  · rintro ⟨hk, hm⟩
    refine ⟨fun domain => ?_, fun hf hop hh => ?_⟩
    · rw [hops_buildCandidatePath, List.countP_map]
      refine le_trans (le_of_eq (List.countP_congr fun k _ => ?_)) (hm domain)
      simp only [Function.comp_apply, decide_eq_true_eq, hmember]
    · rw [hops_buildCandidatePath] at hh
      obtain ⟨k, hkm, rfl⟩ := List.mem_map.mp hh
      exact (hknown k).mp (hk hf k hkm)
  · rintro ⟨hm, hk⟩
    refine ⟨fun hf k hkm => (hknown k).mpr (hk hf _ ?_), fun domain => ?_⟩
    · rw [hops_buildCandidatePath]
      exact List.mem_map_of_mem hkm
    · have hcount := hm domain
      rw [hops_buildCandidatePath, List.countP_map] at hcount
      refine le_trans (le_of_eq (List.countP_congr fun k _ => ?_)) hcount
      simp only [Function.comp_apply, decide_eq_true_eq, hmember]

end View

/-! ## Planning results -/

namespace Passes

variable {sha : List UInt8 → Sha256Digest} {capture : PlanCapture} {request : PlanningRequest}
  (p : Passes sha capture request)

/-- With required transit a candidate goes along the transit path, and that path is unique. -/
theorem eq_transitPath (htransit : request.constraints.requiredTransit ≠ []) {c : Candidate}
    (hc : c ∈ p.candidates) {path : CandidatePath} :
    IsTransitPath p.snapshot capture.limits request path ↔ path = c.path := by
  obtain ⟨total, hfound, halong⟩ := p.along hc
  rw [halong.path_eq]
  constructor
  · rintro ⟨source, destination, built, other, hs, hd, hbuilt, hopt, rfl⟩
    obtain rfl := Except.ok.inj (hs.symm.trans p.resolves_source)
    obtain rfl := Except.ok.inj (hd.symm.trans p.resolves_destination)
    obtain rfl := Except.ok.inj (hbuilt.symm.trans p.buildPlanningView_eq)
    rw [hopt.unique p.isCheckedView.wellFormed (hfound.staged htransit)]
  · rintro rfl
    exact ⟨p.source, p.destination, p.built, total, p.resolves_source, p.resolves_destination,
      p.buildPlanningView_eq, hfound.staged htransit, rfl⟩

/-- **Without required transit** a candidate respects the member limit. -/
theorem respectsMemberLimit (htransit : request.constraints.requiredTransit = []) {limit : UInt32}
    (hlimit : request.constraints.maxMembersPerFailureDomain = some limit) {c : Candidate}
    (hc : c ∈ p.candidates) : RespectsMemberLimit p.snapshot limit.toNat
      request.constraints.failClosedOnUnknownDomains c.path := by
  obtain ⟨path, hfound, halong⟩ := p.along hc
  rw [halong.path_eq]
  exact (memberLimitRespected_iff p.isCheckedView).mp (hfound.memberLimit htransit limit hlimit)

end Passes

namespace RuntimeState

variable {sha : List UInt8 → Sha256Digest} {capture : PlanCapture} {request : PlanningRequest}
  {compared published : RuntimeState}

/-- **The member limit**: the candidates of a result respect it exactly when no transit is required,
or the path that the stages lead to respects it. -/
theorem planResult_respectsMemberLimit_iff {snapshot : FabricSnapshot}
    (hcapture : capture.snapshot = some snapshot) {limit : UInt32}
    (hlimit : request.constraints.maxMembersPerFailureDomain = some limit)
    (hne : (planResult sha capture request compared published).candidates ≠ []) :
    (∀ c ∈ (planResult sha capture request compared published).candidates,
        RespectsMemberLimit snapshot limit.toNat request.constraints.failClosedOnUnknownDomains
          c.path) ↔
      (request.constraints.requiredTransit = [] ∨
        ∀ path, IsTransitPath snapshot capture.limits request path →
          RespectsMemberLimit snapshot limit.toNat request.constraints.failClosedOnUnknownDomains
            path) := by
  rcases @planResult_cases sha capture request compared published with hnone | ⟨p, hmap⟩
  · exact absurd hnone hne
  obtain rfl := Option.some.inj (p.snapshot_eq.symm.trans hcapture)
  have hpaths := hmap (f := fun c => c.path) fun _ _ _ => rfl
  -- the paths of the result are those of the computation
  have hall (P : CandidatePath → Prop) :
      (∀ c ∈ (planResult sha capture request compared published).candidates, P c.path) ↔
        ∀ c ∈ p.candidates, P c.path := by
    rw [← List.forall_mem_map, hpaths, List.forall_mem_map]
  obtain ⟨d, hd⟩ : ∃ d, d ∈ p.candidates := by
    refine List.exists_mem_of_ne_nil _ fun hnil => hne ?_
    rw [hnil] at hpaths
    exact List.map_eq_nil_iff.mp hpaths
  rw [hall]
  by_cases htransit : request.constraints.requiredTransit = []
  · exact iff_of_true (fun c hc => p.respectsMemberLimit htransit hlimit hc) (Or.inl htransit)
  · rw [or_iff_right htransit]
    constructor
    · intro h path hpath
      rw [(p.eq_transitPath htransit hd).mp hpath]
      exact h d hd
    · exact fun h c hc => h _ ((p.eq_transitPath htransit hc).mpr rfl)

end RuntimeState

/-! ## A failure domain on both sides of a required node -/

/-- Three nodes in a line, with both links in one failure domain. -/
def sharedDomain : FabricSnapshot :=
  ((FabricSnapshotBuilder.ofLinks [1, 2, 3] [(1, 2), (2, 3)]).setFailureDomains
    [{ domain := .tagged 0 1
       riskClass := .tagged 0 1
       members := [.forLink (.tagged 0 1), .forLink (.tagged 0 2)] }] true).snapshotWith
    (by decide +kernel) ⟨Vector.replicate 32 4⟩

/-- A request through given nodes, with at most one link in any one failure domain. -/
def limitedRequest (source destination : UInt8) (stages : List TransitStage) : PlanningRequest :=
  { PlanningRequest.between source destination with
    constraints :=
      { id := .tagged 0 1
        requiredTransit := stages
        maxMembersPerFailureDomain := some 1 } }

/-- The request that has to visit the node in the middle. -/
def throughMiddle : PlanningRequest := limitedRequest 1 3 [{ alternatives := [.tagged 0 2] }]

/-- What a new runtime over that fabric returns. -/
def sharedDomainResult (request : PlanningRequest) : PlanningResult :=
  RuntimeState.planResult constantHash (captureOver sharedDomain) request
    (runtimeOver sharedDomain) (runtimeOver sharedDomain)

/-- With required transit a path through one failure domain twice is planned. -/
theorem not_planResult_respectsMemberLimit_sharedDomain :
    (sharedDomainResult throughMiddle).status = .planned ∧
      ¬ ∀ c ∈ (sharedDomainResult throughMiddle).candidates,
        RespectsMemberLimit sharedDomain 1 true c.path := by
  refine ⟨by decide +kernel, fun h => ?_⟩
  have hlimited : ∀ c ∈ (sharedDomainResult throughMiddle).candidates,
      c.path.hops.countP (fun hop => IsMemberLink sharedDomain (.tagged 0 1) hop.link) ≤ 1 :=
    fun c hc => (h c hc).members _
  revert hlimited
  decide +kernel

/-- Without required transit the one link of the path is within the limit. -/
theorem planResult_respectsMemberLimit_iff_sharedDomain :
    (sharedDomainResult (limitedRequest 1 2 [])).candidates ≠ [] ∧
      ∀ c ∈ (sharedDomainResult (limitedRequest 1 2 [])).candidates,
        RespectsMemberLimit sharedDomain 1 true c.path := by
  have hne : (sharedDomainResult (limitedRequest 1 2 [])).candidates ≠ [] := by
    rw [← List.isEmpty_eq_false_iff]
    decide +kernel
  have hlimit : (limitedRequest 1 2 []).constraints.maxMembersPerFailureDomain = some 1 := rfl
  exact ⟨hne, (RuntimeState.planResult_respectsMemberLimit_iff rfl hlimit hne).mpr (Or.inl rfl)⟩

end PathPlanner
