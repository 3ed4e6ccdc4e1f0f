import PathPlanner.Snapshot.Rearrangement
import PathPlanner.Snapshot.Supply

/-!
# The order of the records

The same records can be supplied to a builder in another order. What it keeps is the same unless a
limit, or the topology generation of the moment, leaves a choice among them; what it builds is then
the same when the keys of the consumed records are different.

## Main definitions

* `BuilderCall.Reorders`: calls that supply the same records in another order
* `FabricSnapshotBuilder.LeavesNoChoice`: every order has the same records kept

## Main results

* `FabricSnapshotBuilder.build_reordered_iff`: **when the order does not matter**
* `not_build_reordered_repeatedRecord`: a record whose repetition is found in one order only, and a
  limit that is reached by another node
-/

namespace PathPlanner

open SortedList Admission

/-! ## Another order -/

namespace FabricContent

/-- What is set is the same, with each list in another order. -/
structure SameSettings (c c' : FabricContent) : Prop where
  generations : c.generations = c'.generations
  evidenceSource : c.evidenceSource = c'.evidenceSource
  membershipComplete : c.membershipComplete = c'.membershipComplete
  linkStates : c.linkStates.Perm c'.linkStates
  portStates : c.portStates.Perm c'.portStates
  capabilities : c.capabilities.Perm c'.capabilities
  failureDomains : FailureDomainRecord.SameDomains c.failureDomains c'.failureDomains

variable {c c' c'' : FabricContent}

theorem SameSettings.refl (c : FabricContent) : c.SameSettings c :=
  ⟨rfl, rfl, rfl, .refl _, .refl _, .refl _, .refl _⟩

theorem SameSettings.of_eq (h : c.settings = c'.settings) : c.SameSettings c' := by
  have hsame := SameSettings.refl c.settings
  rw [h] at hsame
  unfold settings at h
  injection h with hg hs _ _ _ hl hp hc hd hm
  exact ⟨hg, hs, hm, .of_eq hl, .of_eq hp, .of_eq hc, hd ▸ .refl _⟩

theorem SameSettings.trans (h : c.SameSettings c') (h' : c'.SameSettings c'') :
    c.SameSettings c'' where
  generations := h.generations.trans h'.generations
  evidenceSource := h.evidenceSource.trans h'.evidenceSource
  membershipComplete := h.membershipComplete.trans h'.membershipComplete
  linkStates := h.linkStates.trans h'.linkStates
  portStates := h.portStates.trans h'.portStates
  capabilities := h.capabilities.trans h'.capabilities
  failureDomains := h.failureDomains.trans h'.failureDomains

theorem eq_of_settings_eq (h : c.settings = c'.settings) (hnodes : c.nodes = c'.nodes)
    (hedges : c.edges = c'.edges) (hendpoints : c.endpoints = c'.endpoints) : c = c' := by
  obtain ⟨⟩ := c
  obtain ⟨⟩ := c'
  unfold settings at h
  injection h
  subst_vars
  rfl

end FabricContent

namespace BuilderCall

/-- The second calls supply the records of the first ones in another order. Nodes and edges come at
topology generations at which the first calls supply some. The lists that are set last have the same
records in another order, and failure domains the same members. -/
structure Reorders (calls calls' : List BuilderCall) : Prop
    extends (FabricContent.ofCalls calls).SameSettings (FabricContent.ofCalls calls') where
  nodes : Reoffers (supplied node? calls) (supplied node? calls')
  edges : Reoffers (supplied edge? calls) (supplied edge? calls')
  endpoints : ((supplied endpoint? calls).map Prod.fst).Perm
    ((supplied endpoint? calls').map Prod.fst)

variable {calls calls' calls'' : List BuilderCall}

theorem Reorders.refl (calls : List BuilderCall) : Reorders calls calls :=
  ⟨.refl _, .of_perm (.refl _), .of_perm (.refl _), .refl _⟩

theorem Reorders.trans (h : Reorders calls calls') (h' : Reorders calls' calls'') :
    Reorders calls calls'' :=
  ⟨h.toSameSettings.trans h'.toSameSettings, h.nodes.trans h'.nodes, h.edges.trans h'.edges,
    h.endpoints.trans h'.endpoints⟩

/-! ### Arranging calls -/

/-- The calls that supply given records, and set the rest. -/
def arrangement (nodes : List (NodeRecord × TopologyGeneration))
    (edges : List (EdgeRecord × TopologyGeneration))
    (endpoints : List (EndpointRecord × TopologyGeneration)) (c : FabricContent) :
    List BuilderCall :=
  offering .addNode nodes ++ offering .addEdge edges ++ offering .addEndpoint endpoints ++
    [.setSource c.evidenceSource, .setLinkStates c.linkStates, .setPortStates c.portStates,
      .setCapabilities c.capabilities, .setFailureDomains c.failureDomains c.membershipComplete,
      .setGenerations c.generations]

section Arrangement

variable (nodes : List (NodeRecord × TopologyGeneration))
  (edges : List (EdgeRecord × TopologyGeneration))
  (endpoints : List (EndpointRecord × TopologyGeneration)) (c : FabricContent)

theorem supplied_arrangement :
    supplied node? (arrangement nodes edges endpoints c) = nodes ∧
      supplied edge? (arrangement nodes edges endpoints c) = edges ∧
        supplied endpoint? (arrangement nodes edges endpoints c) = endpoints := by
  unfold supplied arrangement
  simp only [offered_append]
  refine ⟨?_, ?_, ?_⟩
  · rw [offered_offering node? nodes (fun _ => rfl) fun _ => rfl,
      offered_offering_eq_nil node? edges (fun _ => rfl) fun _ => rfl,
      offered_offering_eq_nil node? endpoints (fun _ => rfl) fun _ => rfl]
    simp [offered, node?]
  · rw [offered_offering_eq_nil edge? nodes (fun _ => rfl) fun _ => rfl,
      offered_offering edge? edges (fun _ => rfl) fun _ => rfl,
      offered_offering_eq_nil edge? endpoints (fun _ => rfl) fun _ => rfl]
    simp [offered, edge?]
  · rw [offered_offering_eq_nil endpoint? nodes (fun _ => rfl) fun _ => rfl,
      offered_offering_eq_nil endpoint? edges (fun _ => rfl) fun _ => rfl,
      offered_offering endpoint? endpoints (fun _ => rfl) fun _ => rfl]
    simp [offered, endpoint?]

theorem settings_arrangement :
    (FabricContent.ofCalls (arrangement nodes edges endpoints c)).settings = c.settings := by
  unfold FabricContent.ofCalls arrangement
  rw [List.foldl_append]
  rfl

variable {nodes edges endpoints c} in
/-- **Every order** of the records is that of some calls. -/
theorem reorders_arrangement (hnodes : Reoffers (supplied node? calls) nodes)
    (hedges : Reoffers (supplied edge? calls) edges)
    (hendpoints : ((supplied endpoint? calls).map Prod.fst).Perm (endpoints.map Prod.fst))
    (hsettings : (FabricContent.ofCalls calls).SameSettings c) :
    Reorders calls (arrangement nodes edges endpoints c) := by
  obtain ⟨hn, he, hp⟩ := supplied_arrangement nodes edges endpoints c
  exact ⟨hsettings.trans (.of_eq (settings_arrangement _ _ _ _).symm), hn.symm ▸ hnodes, he.symm ▸ hedges,
    hp.symm ▸ hendpoints⟩

end Arrangement

end BuilderCall

namespace FabricSnapshotBuilder

open BuilderCall

variable {b b' : FabricSnapshotBuilder} {limits : ResourceLimits}
  {calls calls' : List BuilderCall} {sha : List UInt8 → Sha256Digest}

/-- What was set last, in the builder and in the calls. -/
theorem sameSettings_ofCalls (limits : ResourceLimits) (calls : List BuilderCall) :
    (ofCalls limits calls).content.SameSettings (FabricContent.ofCalls calls) :=
  .of_eq (settings_ofCalls limits calls)

/-! ## What is kept -/

/-- Neither the limits nor the topology generations leave a choice among the records. -/
structure LeavesNoChoice (limits : ResourceLimits) (calls : List BuilderCall) : Prop where
  nodes : Admission.LeavesNoChoice (acceptsNode limits) storedNode limits.maxNodes.toNat
    (supplied node? calls)
  edges : Admission.LeavesNoChoice acceptsEdge id limits.maxEdges.toNat (supplied edge? calls)
  endpoints : limits.maxEndpoints.toNat = 0 ∨ IsForced limits.maxEndpoints.toNat
    (eligible acceptsEndpoint id ((supplied endpoint? calls).map Prod.fst))

/-- The endpoints that are kept do not depend on the topology of the moment. -/
theorem endpoints_ofCalls : (ofCalls limits calls).endpoints =
    admitted acceptsEndpoint id limits.maxEndpoints.toNat
      ((supplied endpoint? calls).map Prod.fst) := by
  rw [keeps_endpoints.ofCalls_eq]
  unfold admitted
  rw [eligible_eq_of_forall (q := acceptsEndpoint) fun _ _ => rfl]

/-- **Without a choice** the builder holds the same records after every order. -/
theorem LeavesNoChoice.rearranges (hchoice : LeavesNoChoice limits calls)
    (h : Reorders calls calls') : (ofCalls limits calls).Rearranges (ofCalls limits calls') := by
  have hsettings : (ofCalls limits calls).content.SameSettings (ofCalls limits calls').content :=
    (sameSettings_ofCalls limits calls).trans (h.toSameSettings.trans
      (.of_eq (settings_ofCalls limits calls').symm))
  exact {
    limits := (limits_ofCalls _ _).trans (limits_ofCalls _ _).symm
    generations := hsettings.generations
    evidenceSource := hsettings.evidenceSource
    membershipComplete := hsettings.membershipComplete
    nodes := by
      rw [keeps_nodes.ofCalls_eq, keeps_nodes.ofCalls_eq]
      exact (h.nodes.admitted_perm hchoice.nodes).symm
    edges := by
      rw [keeps_edges.ofCalls_eq, keeps_edges.ofCalls_eq]
      exact (h.edges.admitted_perm hchoice.edges).symm
    endpoints := by
      rw [endpoints_ofCalls, endpoints_ofCalls]
      unfold admitted
      rcases hchoice.endpoints with hnone | hforced
      · rw [hnone, List.take_zero, List.take_zero]
      · exact (take_perm (eligible_perm h.endpoints.symm) hforced).symm
    linkStates := hsettings.linkStates
    portStates := hsettings.portStates
    capabilities := hsettings.capabilities
    failureDomains := hsettings.failureDomains }

/-- A build looks at the limits and at the records only. -/
theorem build_eq_of_content (hlimits : b.limits = b'.limits) (hcontent : b.content = b'.content) :
    b.build sha = b'.build sha := by
  obtain ⟨⟩ := b
  obtain ⟨⟩ := b'
  unfold content at hcontent
  injection hcontent
  subst_vars
  rfl

/-! ## Every order occurs -/

/-- **Every order of what is kept** is what some calls have kept. -/
theorem exists_reorders_of_rearranges (h : (ofCalls limits calls).Rearranges b') :
    ∃ calls', Reorders calls calls' ∧ ∀ sha, (ofCalls limits calls').build sha = b'.build sha := by
  obtain ⟨nodes, hnodes, hkeptNodes⟩ :=
    exists_perm_admitted_eq (h.nodes.symm.trans (.of_eq keeps_nodes.ofCalls_eq))
  obtain ⟨edges, hedges, hkeptEdges⟩ :=
    exists_perm_admitted_eq (h.edges.symm.trans (.of_eq keeps_edges.ofCalls_eq))
  obtain ⟨endpoints, hendpoints, hkeptEndpoints⟩ :=
    exists_perm_admitted_eq (h.endpoints.symm.trans (.of_eq keeps_endpoints.ofCalls_eq))
  have hsettings : (FabricContent.ofCalls calls).SameSettings b'.content :=
    (FabricContent.SameSettings.of_eq (settings_ofCalls limits calls).symm).trans
      ⟨h.generations, h.evidenceSource, h.membershipComplete, h.linkStates, h.portStates,
        h.capabilities, h.failureDomains⟩
  refine ⟨arrangement nodes edges endpoints b'.content, reorders_arrangement (.of_perm hnodes)
    (.of_perm hedges) (hendpoints.map _).symm hsettings, fun sha => build_eq_of_content ?_ ?_⟩
  · exact (limits_ofCalls _ _).trans ((limits_ofCalls _ _).symm.trans h.limits)
  · obtain ⟨hn, he, hp⟩ := supplied_arrangement nodes edges endpoints b'.content
    refine FabricContent.eq_of_settings_eq ?_ ?_ ?_ ?_
    · exact (settings_ofCalls _ _).trans (settings_arrangement _ _ _ _)
    · exact keeps_nodes.ofCalls_eq.trans (hn.symm ▸ hkeptNodes)
    · exact keeps_edges.ofCalls_eq.trans (he.symm ▸ hkeptEdges)
    · exact keeps_endpoints.ofCalls_eq.trans (hp.symm ▸ hkeptEndpoints)

/-- **With a choice** some order has other records kept than a given builder holds. -/
theorem exists_reorders_not_perm (hchoice : ¬ LeavesNoChoice limits calls)
    (b' : FabricSnapshotBuilder) :
    ∃ calls', Reorders calls calls' ∧ ¬ ((ofCalls limits calls').nodes.Perm b'.nodes ∧
      (ofCalls limits calls').edges.Perm b'.edges ∧
        (ofCalls limits calls').endpoints.Perm b'.endpoints) := by
  by_cases hnodes : Admission.LeavesNoChoice (acceptsNode limits) storedNode limits.maxNodes.toNat
      (supplied node? calls)
  · by_cases hedges : Admission.LeavesNoChoice acceptsEdge id limits.maxEdges.toNat
        (supplied edge? calls)
    · have hendpoints := fun hendpoints => hchoice ⟨hnodes, hedges, hendpoints⟩
      obtain ⟨hbound, hforced⟩ := not_or.mp hendpoints
      obtain ⟨endpoints, hperm, hne⟩ :=
        exists_perm_not_perm_admitted hbound hforced b'.endpoints
      refine ⟨arrangement (supplied node? calls) (supplied edge? calls)
        (endpoints.map fun e => (e, default)) (FabricContent.ofCalls calls),
        reorders_arrangement (.of_perm (.refl _)) (.of_perm (.refl _)) ?_ (.refl _), fun h => ?_⟩
      · rw [List.map_map]
        exact hperm.symm.trans (.of_eq (List.map_id _).symm)
      · have hkept := h.2.2
        rw [endpoints_ofCalls, (supplied_arrangement _ _ _ _).2.2, List.map_map] at hkept
        exact hne ((List.Perm.of_eq (congrArg _ (List.map_id _).symm)).trans hkept)
    · obtain ⟨edges, hreoffers, hne⟩ := exists_reoffers_not_perm hedges
        (fun e e' _ (h : e = e') => h ▸ rfl) b'.edges
      refine ⟨arrangement (supplied node? calls) edges (supplied endpoint? calls)
        (FabricContent.ofCalls calls),
        reorders_arrangement (.of_perm (.refl _)) hreoffers (.refl _) (.refl _), fun h => ?_⟩
      have hkept := h.2.1
      rw [keeps_edges.ofCalls_eq, (supplied_arrangement _ _ _ _).2.1] at hkept
      exact hne hkept
  · obtain ⟨nodes, hreoffers, hne⟩ := exists_reoffers_not_perm hnodes (fun a b t h => by
      rw [← acceptsNode_storedNode a, h, acceptsNode_storedNode]) b'.nodes
    refine ⟨arrangement nodes (supplied edge? calls) (supplied endpoint? calls)
      (FabricContent.ofCalls calls),
      reorders_arrangement hreoffers (.of_perm (.refl _)) (.refl _) (.refl _), fun h => ?_⟩
    have hkept := h.1
    rw [keeps_nodes.ofCalls_eq, (supplied_arrangement _ _ _ _).1] at hkept
    exact hne hkept

/-! ## What is built -/

/-- Builders of one snapshot hold the same nodes, edges and endpoints. -/
theorem perm_of_build {s : FabricSnapshot} (h : b.build sha = .ok s) (h' : b'.build sha = .ok s) :
    b.nodes.Perm b'.nodes ∧ b.edges.Perm b'.edges ∧ b.endpoints.Perm b'.endpoints := by
  have hs := (records_eq_ok (records_of_build h)).1
  have hs' := (records_eq_ok (records_of_build h')).1
  have hperm {α κ : Type} [LinearOrder κ] {key : α → κ} {l l' : List α}
      (heq : sortBy key l = sortBy key l') : l.Perm l' :=
    (perm_sortBy key l).symm.trans (heq ▸ perm_sortBy key l')
  exact ⟨hperm (hs.nodes.symm.trans hs'.nodes), hperm (hs.edges.symm.trans hs'.edges),
    hperm (hs.endpoints.symm.trans hs'.endpoints)⟩

/-- **When the order does not matter**: every order has the same records kept and the keys of the
consumed ones are different, or whatever is kept cannot be built. A digest that is always zero is a
reason of its own only for a hash that takes it. -/
theorem build_reordered_iff :
    ((∀ calls', Reorders calls calls' →
        ((ofCalls limits calls').build sha).toOption = ((ofCalls limits calls).build sha).toOption) ↔
      LeavesNoChoice limits calls ∧ (ofCalls limits calls).HasDistinctKeys ∨
        ∀ calls', Reorders calls calls' → (ofCalls limits calls').IsUnbuildable sha) ∧
      ∀ b : FabricSnapshotBuilder, b.IsDegenerate sha →
        b.IsCrowded ∨ ∃ bytes, (sha bytes).isZero = true := by
  refine ⟨⟨fun hsame => ?_, ?_⟩, fun b h => h.isCrowded_or⟩
  · by_contra hcond
    rw [not_or] at hcond
    obtain ⟨hsupply, hbuilds⟩ := hcond
    push Not at hbuilds
    -- some order is built
    obtain ⟨calls₁, h₁, hbuildable⟩ := hbuilds
    obtain ⟨b₂, hb₂, s, hs⟩ := exists_rearranges_build_iff.mpr hbuildable
    obtain ⟨calls₂, h₂, hbuild₂⟩ := exists_reorders_of_rearranges hb₂
    have hbuilt {calls' : List BuilderCall} (h : Reorders calls calls') :
        (ofCalls limits calls').build sha = .ok s := by
      have heq := (hsame calls' h).trans (hsame calls₂ (h₁.trans h₂)).symm
      rw [hbuild₂ sha, hs] at heq
      exact toOption_eq_some_iff.mp heq
    by_cases hchoice : LeavesNoChoice limits calls
    · -- a repetition is found in another order
      have hkeys : ¬ (ofCalls limits calls).HasDistinctKeys := fun hkeys => hsupply ⟨hchoice, hkeys⟩
      obtain ⟨b₃, hb₃, hfound⟩ := exists_rearranges_of_not_hasDistinctKeys hkeys
      obtain ⟨calls₃, h₃, hbuild₃⟩ := exists_reorders_of_rearranges hb₃
      exact hfound (exists_build_iff.mp ⟨s, (hbuild₃ sha).symm.trans (hbuilt h₃)⟩).1.duplicates
    · -- other records are kept in another order
      obtain ⟨calls₃, h₃, hkept⟩ := exists_reorders_not_perm hchoice (ofCalls limits calls)
      exact hkept (perm_of_build (hbuilt h₃) (hbuilt (.refl _)))
  · rintro (⟨hchoice, hkeys⟩ | hfails) calls' h
    · exact (hchoice.rearranges h).build_eq hkeys
    · have hnone {calls₁ : List BuilderCall} (h₁ : Reorders calls calls₁) :
          ((ofCalls limits calls₁).build sha).toOption = none :=
        toOption_eq_none_iff.mpr fun hs =>
          exists_rearranges_build_iff.mp ⟨_, .refl _, hs⟩ (hfails calls₁ h₁)
      rw [hnone h, hnone (.refl _)]

end FabricSnapshotBuilder

/-! ## One record twice, and one node too many -/

/-- The records of `repeatedRecord` with the two of one link next to each other. -/
def neighbouringRecord : List BuilderCall :=
  [.setLinkStates [⟨.tagged 0 1, .up⟩, ⟨.tagged 0 1, .down⟩, ⟨.tagged 0 2, .up⟩]]

/-- A node under a limit of one, which turns the second node away. -/
def supplyOfNode (first second : UInt8) : List BuilderCall :=
  [.addNode (FabricSnapshotBuilder.nodeOf [] first), .addNode (FabricSnapshotBuilder.nodeOf [] second)]

/-- One order of three records is built and another one is refused; two orders of two nodes are both
built, and what they build is not the same. -/
theorem not_build_reordered_repeatedRecord :
    (BuilderCall.Reorders repeatedRecord neighbouringRecord ∧
      (∃ s, (FabricSnapshotBuilder.ofCalls {} repeatedRecord).build onesHash = .ok s) ∧
      ¬ ∃ s, (FabricSnapshotBuilder.ofCalls {} neighbouringRecord).build onesHash = .ok s) ∧
    BuilderCall.Reorders (supplyOfNode 1 2) (supplyOfNode 2 1) ∧
      ∃ s s',
        (FabricSnapshotBuilder.ofCalls { maxNodes := 1 } (supplyOfNode 1 2)).build onesHash = .ok s ∧
        (FabricSnapshotBuilder.ofCalls { maxNodes := 1 } (supplyOfNode 2 1)).build onesHash = .ok s' ∧
          s ≠ s' := by
  refine ⟨⟨?_, FabricSnapshotBuilder.exists_eq_ok (by decide +kernel), fun hs => ?_⟩, ?_, ?_⟩
  · exact ⟨⟨rfl, rfl, rfl, (List.Perm.swap _ _ _).cons _, .refl _, .refl _, .refl _⟩,
      .of_perm (.refl _), .of_perm (.refl _), .refl _⟩
  · have hduplicates := (FabricSnapshotBuilder.exists_build_iff.mp hs).1.duplicates
    revert hduplicates
    decide +kernel
  · exact ⟨.of_eq rfl, .of_perm (List.Perm.swap _ _ _), .of_perm (.refl _), .refl _⟩
  · obtain ⟨s, hs⟩ := FabricSnapshotBuilder.exists_eq_ok (x :=
      (FabricSnapshotBuilder.ofCalls { maxNodes := 1 } (supplyOfNode 1 2)).build onesHash)
      (by decide +kernel)
    obtain ⟨s', hs'⟩ := FabricSnapshotBuilder.exists_eq_ok (x :=
      (FabricSnapshotBuilder.ofCalls { maxNodes := 1 } (supplyOfNode 2 1)).build onesHash)
      (by decide +kernel)
    refine ⟨s, s', hs, hs', fun heq => ?_⟩
    subst heq
    -- the builders hold different nodes
    have hkept := (FabricSnapshotBuilder.perm_of_build hs hs').1.map NodeRecord.id
    revert hkept
    decide +kernel

end PathPlanner
