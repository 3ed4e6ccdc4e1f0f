import PathPlanner.Search.Candidates

/-!
# Soundness of the enumeration

Whatever the request mixes and however large the view is, the paths returned are different candidate
paths: with required transit the staged path, and without it paths that every spur search keeps
simple, between the endpoints and within the hop bound.

## Main definitions

* `HoldsCandidates`: the accepted and the pending paths are candidate paths, each held once

## Main results

* `spurSearch_holdsCandidates`, `enumerationLoop_holdsCandidates`: the loops keep this
* `enumerateCandidatePaths_sound`: what every enumeration returns
* `enumerationResult_sound`: what is returned without required transit
-/

namespace PathPlanner

open Multigraph

/-- The accepted and the pending paths are candidate paths from the source, each held once. -/
structure HoldsCandidates (view : PlanningView) (options : EnumerationOptions)
    (accepted pending : List RankedRawPath) : Prop where
  path_eq : ∀ entry ∈ accepted ++ pending, entry.path = view.rawPath options.sourceView entry.entries
  candidate : ∀ entry ∈ accepted ++ pending, IsCandidatePath view options.sourceView
    options.destinationView options.maxHops entry.entries
  cost_eq : ∀ entry ∈ accepted ++ pending, view.computeRawPathCost entry.path = some entry.cost
  nodup : ((accepted ++ pending).map (·.path)).Nodup

section Loops

variable {view : PlanningView} {options : EnumerationOptions}
  {accepted pending pending' : List RankedRawPath} {work work' : Work} {a t : List ℕ} {i : ℕ}

/-- The path that is found first is held alone. -/
theorem holdsCandidates_singleton {cost : PathCost} (ht : IsCandidatePath view options.sourceView
    options.destinationView options.maxHops t)
    (hcost : view.computeRawPathCost (view.rawPath options.sourceView t) = some cost) :
    HoldsCandidates view options [⟨view.rawPath options.sourceView t, cost⟩] [] where
  path_eq entry he := by
    rw [List.append_nil, List.mem_singleton] at he
    rw [he]
    rfl
  candidate entry he := by
    rw [List.append_nil, List.mem_singleton] at he
    rw [he]
    exact ht
  cost_eq entry he := by
    rw [List.append_nil, List.mem_singleton] at he
    rw [he]
    exact hcost
  nodup := List.nodup_singleton _

/-- A path that is added is new. -/
theorem addSpur_holdsCandidates (h : HoldsCandidates view options accepted pending)
    (ht : IsCandidatePath view options.sourceView options.destinationView options.maxHops t) :
    HoldsCandidates view options accepted
      (addSpur view accepted pending (view.rawPath options.sourceView t)) := by
  unfold addSpur
  split_ifs with hsimple hknown
  · exact h
  · exact h
  · split
    · exact h
    · next cost hcost =>
      rw [Bool.or_eq_true, containsRawPath_iff, containsRawPath_iff] at hknown
      have hmem {entry : RankedRawPath}
          (he : entry ∈ accepted ++ (pending ++ [⟨view.rawPath options.sourceView t, cost⟩])) :
          entry ∈ accepted ++ pending ∨ entry = ⟨view.rawPath options.sourceView t, cost⟩ := by
        rwa [← List.append_assoc, List.mem_append, List.mem_singleton] at he
      refine ⟨fun entry he => ?_, fun entry he => ?_, fun entry he => ?_, ?_⟩
      · rcases hmem he with he | rfl
        · exact h.path_eq entry he
        · rfl
      · rcases hmem he with he | rfl
        · exact h.candidate entry he
        · exact ht
      · rcases hmem he with he | rfl
        · exact h.cost_eq entry he
        · exact hcost
      · rw [← List.append_assoc, List.map_append, List.map_singleton]
        refine List.Nodup.append h.nodup (List.nodup_singleton _)
          (List.disjoint_singleton.mpr fun hin => hknown ?_)
        obtain ⟨entry, he, heq⟩ := List.mem_map.mp hin
        exact (List.mem_append.mp he).imp (fun he => ⟨entry, he, heq⟩) fun he => ⟨entry, he, heq⟩

variable (wf : view.WellFormed) (hsource : options.sourceView < view.nodeCount)

include wf hsource

/-- **One spur search** adds at most a new candidate path. -/
theorem spurSearch_holdsCandidates (h : HoldsCandidates view options accepted pending)
    (ha : IsCandidatePath view options.sourceView options.destinationView options.maxHops a)
    (hi : i ≤ a.length)
    (hok : spurSearch view options accepted (view.rawPath options.sourceView a) (pending, work) i =
      .ok (pending', work')) :
    HoldsCandidates view options accepted pending' := by
  have hlt : view.graph.finish options.sourceView (a.take i) < view.nodeCount :=
    wf.lt_of_mem_nodes hsource (ha.isWalk.take i) _ finish_mem_nodes
  unfold spurSearch at hok
  split at hok
  · cases hok
  · next work₁ _ =>
    rw [getD_nodes_rawPath hi] at hok
    dsimp only at hok
    split_ifs at hok with hlimit hfound
    · exact (Prod.mk.inj (Except.ok.inj hok)).1 ▸ h
    · rw [Bool.not_eq_true] at hlimit
      rcases shortestPath_spec wf hlt hlimit with ⟨-, x, hpath, hx⟩ | ⟨hf, -⟩
      · rw [hpath, spurTotal_rawPath] at hok
        obtain ⟨rfl, -⟩ := Prod.mk.inj (Except.ok.inj hok)
        exact addSpur_holdsCandidates h (ha.spur hi spurBans_nodes hx.admissible)
      · rw [hf] at hfound
        exact absurd rfl hfound

/-- The loop over positions of an accepted path adds new candidate paths. -/
theorem spurLoop_holdsCandidates {positions : List ℕ} (hpos : ∀ i ∈ positions, i ≤ a.length)
    (h : HoldsCandidates view options accepted pending)
    (ha : IsCandidatePath view options.sourceView options.destinationView options.maxHops a)
    (hok : positions.foldlM (spurSearch view options accepted (view.rawPath options.sourceView a))
      (pending, work) = .ok (pending', work')) :
    HoldsCandidates view options accepted pending' := by
  induction positions generalizing pending work with
  | nil => exact (Prod.mk.inj (Except.ok.inj hok)).1 ▸ h
  | cons i positions ih =>
    obtain ⟨hi, hpos⟩ := List.forall_mem_cons.mp hpos
    rw [List.foldlM_cons] at hok
    cases hstep : spurSearch view options accepted (view.rawPath options.sourceView a)
        (pending, work) i with
    | error ended =>
      rw [hstep] at hok
      cases hok
    | ok state =>
      obtain ⟨mid, workMid⟩ := state
      rw [hstep] at hok
      exact ih hpos (spurSearch_holdsCandidates wf hsource h ha hi hstep) hok

/-- **The loop** accepts pending paths only. -/
theorem enumerationLoop_holdsCandidates {wanted fuel : ℕ} {state state' : EnumerationState}
    (h : HoldsCandidates view options state.accepted state.pending)
    (hok : enumerationLoop view options wanted fuel state = .ok state') :
    HoldsCandidates view options state'.accepted state'.pending := by
  induction fuel generalizing state with
  | zero => exact Except.ok.inj hok ▸ h
  | succ fuel ih =>
    rw [enumerationLoop] at hok
    split_ifs at hok
    · split at hok
      · exact Except.ok.inj hok ▸ h
      · next previous hlast =>
        have hprevious := List.mem_append_left state.pending (List.mem_of_getLast? hlast)
        split at hok
        · cases hok
        · next pending work hspurs =>
          rw [h.path_eq previous hprevious] at hspurs
          have hv := spurLoop_holdsCandidates wf hsource
            (fun i hi => (List.mem_range.mp hi).le) h (h.candidate previous hprevious) hspurs
          split at hok
          · exact Except.ok.inj hok ▸ hv
          · next best rest hbest =>
            -- the path that is accepted moves from the pending ones
            have hperm : (state.accepted ++ [best] ++ rest).Perm (state.accepted ++ pending) := by
              rw [List.append_assoc]
              exact (takeBest_perm hbest).append_left _
            exact ih ⟨fun entry he => hv.path_eq entry (hperm.subset he),
              fun entry he => hv.candidate entry (hperm.subset he),
              fun entry he => hv.cost_eq entry (hperm.subset he),
              (hperm.map _).nodup_iff.mpr hv.nodup⟩ hok
    · exact Except.ok.inj hok ▸ h

/-- **The accepted paths** are different candidate paths. -/
theorem enumeratePaths_holdsCandidates (hok : enumeratePaths view options work =
    .ok (accepted, work')) : HoldsCandidates view options accepted [] := by
  unfold enumeratePaths at hok
  dsimp only at hok
  split_ifs at hok with hlimit hfound
  rw [Bool.not_eq_true] at hlimit
  rcases shortestPath_spec wf hsource hlimit with ⟨-, first, hpath, hfirst⟩ | ⟨hf, -⟩
  · rw [hpath] at hok
    split at hok
    · cases hok
    · next cost hcost =>
      split at hok
      · cases hok
      · next state hloop =>
        obtain ⟨rfl, -⟩ := Prod.mk.inj (Except.ok.inj hok)
        have hstart := (isAdmissible_iff.mp hfirst.admissible).1.isCandidatePath
        have hfinal := enumerationLoop_holdsCandidates wf hsource
          (holdsCandidates_singleton hstart hcost) hloop
        -- the paths still pending are dropped
        have hsub : (state.accepted ++ []).Sublist (state.accepted ++ state.pending) :=
          List.Sublist.append_left (List.nil_sublist _) _
        exact ⟨fun entry he => hfinal.path_eq entry (hsub.subset he),
          fun entry he => hfinal.candidate entry (hsub.subset he),
          fun entry he => hfinal.cost_eq entry (hsub.subset he), hfinal.nodup.sublist (hsub.map _)⟩
  · rw [hf] at hfound
    exact absurd rfl hfound

omit wf hsource

/-- An enumeration that accepts nothing returns nothing. -/
theorem enumeratePaths_error_paths {result : EnumerationResult}
    (h : enumeratePaths view options work = .error (result, work')) : result.paths = [] := by
  unfold enumeratePaths at h
  dsimp only at h
  split at h
  · rw [← (Prod.mk.inj (Except.error.inj h)).1]
    rfl
  split at h
  · rw [← (Prod.mk.inj (Except.error.inj h)).1]
  · split at h
    · rw [← (Prod.mk.inj (Except.error.inj h)).1]
    · split at h
      · next hloop =>
        obtain ⟨detail, hd⟩ := enumerationLoop_error hloop
        rw [Except.error.inj h] at hd
        exact congrArg EnumerationResult.paths hd
      · cases h

end Loops

/-! ## What is returned -/

section Returned

variable {view : PlanningView} {options : EnumerationOptions} {request : PlanningRequest}
  {work : Work} {stages : List TransitStage}

/-- The loop over the combinations returns a path only when it succeeds. -/
theorem transitLoop_paths {combinations : List ℕ} {best : Option RankedRawPath}
    {legFailure : DiagnosticCode}
    (h : (transitLoop view options stages combinations best legFailure work).1.ok = false) :
    (transitLoop view options stages combinations best legFailure work).1.paths = [] := by
  induction combinations generalizing best legFailure work with
  | nil =>
    cases best with
    | none => rfl
    | some best => cases h
  | cons c combinations ih =>
    rw [transitLoop] at h ⊢
    split
    · next hc =>
      rw [hc] at h
      exact ih h
    · next hc =>
      rw [hc] at h
      exact ih h
    · rfl

/-- Required transit returns a path only when it succeeds. -/
theorem enumerateTransit_paths (h : (enumerateTransit view stages options work).1.ok = false) :
    (enumerateTransit view stages options work).1.paths = [] := by
  unfold enumerateTransit at h ⊢
  split_ifs at h ⊢
  · rfl
  · cases hcount : transitCombinations view.limits stages with
    | error result => exact (transitCombinations_error hcount).2
    | ok combinations =>
      rw [hcount] at h
      exact transitLoop_paths h

variable (wf : view.WellFormed) (coh : view.CostCoherent)
  (hsource : options.sourceView < view.nodeCount)

variable (request) in
/-- **Without required transit** the paths returned are different candidate paths that respect the
member limit. -/
theorem enumerationResult_sound {accepted : List RankedRawPath}
    (h : HoldsCandidates view options accepted []) :
    ∃ candidates : List (List ℕ), (enumerationResult view request options accepted).paths =
        candidates.map (view.rawPath options.sourceView) ∧ candidates.Nodup ∧
      ∀ path ∈ candidates, IsCandidatePath view options.sourceView options.destinationView
          options.maxHops path ∧
        (options.domainMemberLimitActive = true →
          ∀ limit ∈ request.constraints.maxMembersPerFailureDomain, MemberLimitRespected view
            limit.toNat request.constraints.failClosedOnUnknownDomains path) := by
  rw [enumerationResult_paths]
  generalize hkept : (accepted.filter (memberLimitTest view request options)).take
    options.maxCandidates = kept
  have htest : ∀ entry ∈ kept, memberLimitTest view request options entry = true := fun entry he =>
    (List.mem_filter.mp (List.mem_of_mem_take (hkept ▸ he))).2
  have hsub : kept.Sublist (accepted ++ []) := by
    rw [List.append_nil, ← hkept]
    exact (List.take_sublist _ _).trans List.filter_sublist
  have hpaths : kept.map (·.path) =
      (kept.map (·.entries)).map (view.rawPath options.sourceView) := by
    rw [List.map_map]
    exact List.map_congr_left fun entry he => h.path_eq entry (hsub.subset he)
  refine ⟨kept.map (·.entries), hpaths, ?_, fun path hp => ?_⟩
  · have hnodup := h.nodup.sublist (hsub.map _)
    rw [hpaths] at hnodup
    exact hnodup.of_map _
  · obtain ⟨entry, he, rfl⟩ := List.mem_map.mp hp
    refine ⟨h.candidate entry (hsub.subset he), fun hactive limit hlimit => ?_⟩
    have hcompliant := htest entry he
    rw [memberLimitTest, hactive, Option.mem_def.mp hlimit] at hcompliant
    exact domainMemberLimitCompliant_iff.mp hcompliant

include wf coh hsource

variable (request options work) in
/-- **What every enumeration returns**: different candidate paths. With required transit it is the
staged optimum, which visits the stages in order, and without it they respect the member limit. -/
theorem enumerateCandidatePaths_sound
    (hindex : ∀ id v, view.viewIndex id = some v → (view.nodeAt v).id = id) :
    ∃ candidates : List (List ℕ), (enumerateCandidatePaths view request options work).1.paths =
        candidates.map (view.rawPath options.sourceView) ∧ candidates.Nodup ∧
      ∀ path ∈ candidates, IsCandidatePath view options.sourceView options.destinationView
          options.maxHops path ∧
        VisitsInOrder request.constraints.requiredTransit
          ((view.graph.nodes options.sourceView path).map fun v => (view.nodeAt v).id) ∧
        (request.constraints.requiredTransit ≠ [] →
          IsStagedOptimum view options request.constraints.requiredTransit path) ∧
        (request.constraints.requiredTransit = [] → options.domainMemberLimitActive = true →
          ∀ limit ∈ request.constraints.maxMembersPerFailureDomain, MemberLimitRespected view
            limit.toNat request.constraints.failClosedOnUnknownDomains path) := by
  unfold enumerateCandidatePaths
  split_ifs with htransit
  · rw [Bool.not_eq_true', List.isEmpty_eq_false_iff] at htransit
    cases hok : (enumerateTransit view request.constraints.requiredTransit options work).1.ok with
    | false => exact ⟨[], enumerateTransit_paths hok, List.nodup_nil, by simp⟩
    | true =>
      obtain ⟨total, hpaths, -, hopt⟩ := enumerateTransit_spec wf coh hsource hok
      obtain ⟨selected, hchoice, hstaged⟩ := hopt.staged
      obtain ⟨hwalk, hfinish, hsimple, hhops, -, -⟩ :=
        hstaged.isWalk trivial (Or.inr (Nat.zero_le _))
      obtain ⟨rest, hrest, hvisits⟩ := hstaged.visitsInOrder hchoice hindex
      refine ⟨[total], hpaths, List.nodup_singleton _, fun path hp => ?_⟩
      rw [List.mem_singleton.mp hp]
      refine ⟨⟨hwalk, hfinish, hsimple, hhops⟩, ?_, fun _ => hopt, fun hnone => absurd hnone htransit⟩
      rw [hrest]
      exact hvisits
  · rw [Bool.not_eq_true, Bool.not_eq_false', List.isEmpty_iff] at htransit
    rw [htransit]
    cases henum : enumeratePaths view options work with
    | error ended =>
      obtain ⟨result, work'⟩ := ended
      exact ⟨[], enumeratePaths_error_paths henum, List.nodup_nil, by simp⟩
    | ok state =>
      obtain ⟨accepted, work'⟩ := state
      obtain ⟨candidates, hpaths, hnodup, hall⟩ := enumerationResult_sound request
        (enumeratePaths_holdsCandidates wf hsource henum)
      exact ⟨candidates, hpaths, hnodup, fun path hp =>
        ⟨(hall path hp).1, trivial, fun hne => absurd rfl hne, fun _ => (hall path hp).2⟩⟩

end Returned

end PathPlanner
