import PathPlanner.Planner.Structural
import PathPlanner.Search.Budget

/-!
# Verdicts on the ranking

Every candidate of the unfiltered ranking gets a verdict: none is asked for, none is available, or
the Path Authority gives one. The candidates that stay are those that the mode keeps under their
verdicts, in the order of the ranking. When all are lost although none was rejected, the call goes on
to explain why nothing was found.

## Main definitions

* `unfilteredRanking`: the ranking of a call before the Path Authority is consulted
* `judge`, `keeps`: the verdicts on a ranking, and the verdicts that a mode keeps
* `AuthorityFiltered`: a result that is the ranking, filtered as its mode asks

## Main results

* `validateCandidates_spec`: the step of the Path Authority filters the ranking by the verdicts
* `Reaches.found_decided`: a call that finds something records no failure
* `Reaches.emptyOutcome_status_of_path`: the status of a call without candidates over a view with a
  path
-/

namespace PathPlanner

open Meter

/-! ## Verdicts -/

/-- What the Path Authority is told about a candidate, and the name and cost of it. -/
def Candidate.subject (c : Candidate) : CandidatePathId × CandidatePath × PathCost × EvidenceVector :=
  (c.id, c.path, c.cost, c.evidence)

/-- The verdict on a candidate at a position of the ranking. -/
def verdictOn (authority : Option PathAuthority) (mode : AuthorityValidationMode)
    (entry : Candidate × ℕ) : AuthorityValidation :=
  if mode = .none then .notRequested
  else
    match authority with
    | none => .unavailable
    | some ask => ask entry.2 entry.1.path entry.1.evidence

/-- The candidates of a ranking with the verdicts on them. -/
def judge (authority : Option PathAuthority) (mode : AuthorityValidationMode)
    (ranking : List Candidate) : List (Candidate × AuthorityValidation) :=
  ranking.zipIdx.map fun entry => (entry.1, verdictOn authority mode entry)

/-- Whether a mode keeps a candidate under a verdict. -/
def keeps (mode : AuthorityValidationMode) (verdict : AuthorityValidation) : Bool :=
  match mode with
  | .none => true
  | .bestEffort => verdict ≠ .rejected
  | _ => verdict = .validated

/-- A candidate with the verdict that was recorded. -/
def Candidate.judged (c : Candidate) :
    (CandidatePathId × CandidatePath × PathCost × EvidenceVector) × AuthorityValidation :=
  (c.subject, c.authority)

section Authority

variable {ask : PathAuthority} {authority : Option PathAuthority} {mode : AuthorityValidationMode}
  {evidence : EvidenceVector} {view : PlanningView} {truncated : Bool} {result : PlanningResult}
  {ranking out : List Candidate}

theorem judge_eq_nil_iff : judge authority mode ranking = [] ↔ ranking = [] := by
  rw [judge, List.map_eq_nil_iff, List.zipIdx_eq_nil_iff]

/-- Numbering leaves the verdicts alone. -/
theorem map_numberCandidates_judged :
    (numberCandidates ranking).map Candidate.judged = ranking.map Candidate.judged := by
  refine List.ext_getElem (by simp [numberCandidates]) fun i hi hi' => ?_
  simp only [numberCandidates, List.getElem_map, List.getElem_mapIdx]
  rfl

/-- One verdict keeps the candidate, with the verdict recorded, or drops it. -/
theorem map_recordVerdict (hmode : mode ≠ .none) (c : Candidate) (verdict : AuthorityValidation)
    (state : List Candidate × Bool) :
    (recordVerdict mode c verdict state).1.map Candidate.judged =
      state.1.map Candidate.judged ++ if keeps mode verdict then [(c.subject, verdict)] else [] := by
  cases mode with
  | none => exact absurd rfl hmode
  | bestEffort =>
    cases verdict with
    | rejected => exact (List.append_nil _).symm
    | validated | unavailable | notRequested => exact List.map_append
  | required | undeclared _ _ =>
    cases verdict with
    | validated => exact List.map_append
    | rejected | unavailable | notRequested => exact (List.append_nil _).symm

/-- The flag records whether some candidate was rejected. -/
theorem snd_recordVerdict (c : Candidate) (verdict : AuthorityValidation)
    (state : List Candidate × Bool) :
    (recordVerdict mode c verdict state).2 = (state.2 || verdict = .rejected) := by
  cases verdict with
  | rejected => exact (Bool.or_true _).symm
  | validated | unavailable | notRequested => exact (Bool.or_false _).symm

/-- **Asking the authority** filters the candidates by the verdicts, and records a rejection. -/
theorem askAuthority_spec (hmode : mode ≠ .none) :
    (askAuthority ask mode evidence ranking).1.map Candidate.judged =
        ((ranking.zipIdx.map fun entry =>
          (entry.1.subject, ask entry.2 entry.1.path evidence)).filter (keeps mode ·.2)) ∧
      (askAuthority ask mode evidence ranking).2 =
        ranking.zipIdx.any fun entry => ask entry.2 entry.1.path evidence = .rejected := by
  suffices h : ∀ (indexed : List (Candidate × ℕ)) (state : List Candidate × Bool),
      let asked := indexed.foldl (fun state entry =>
        recordVerdict mode entry.1 (ask entry.2 entry.1.path evidence) state) state
      asked.1.map Candidate.judged = state.1.map Candidate.judged ++
          ((indexed.map fun entry =>
            (entry.1.subject, ask entry.2 entry.1.path evidence)).filter (keeps mode ·.2)) ∧
        asked.2 = (state.2 || indexed.any fun entry =>
          ask entry.2 entry.1.path evidence = .rejected) from h ranking.zipIdx ([], false)
  intro indexed
  induction indexed with
  | nil => exact fun state => ⟨(List.append_nil _).symm, (Bool.or_false _).symm⟩
  | cons entry indexed ih =>
    intro state
    obtain ⟨hmap, hflag⟩ := ih (recordVerdict mode entry.1 (ask entry.2 entry.1.path evidence) state)
    refine ⟨hmap.trans ?_, hflag.trans ?_⟩
    · rw [map_recordVerdict hmode, List.map_cons, List.filter_cons, List.append_assoc]
      split_ifs <;> rfl
    · rw [snd_recordVerdict, List.any_cons, Bool.or_assoc]

/-- The verdicts when there is no authority. -/
theorem judge_none (hmode : mode ≠ .none) : judge none mode ranking =
    ranking.zipIdx.map fun entry => (entry.1, AuthorityValidation.unavailable) := by
  unfold judge verdictOn
  simp only [if_neg hmode]

/-- What is asked of an authority are the verdicts on the ranking. -/
theorem judge_some (hmode : mode ≠ .none) (hevidence : ∀ c ∈ ranking, c.evidence = evidence) :
    judge (some ask) mode ranking =
      ranking.zipIdx.map fun entry => (entry.1, ask entry.2 entry.1.path evidence) := by
  refine List.map_congr_left fun entry he => ?_
  rw [verdictOn, if_neg hmode, hevidence entry.1 (List.fst_mem_of_mem_zipIdx he)]

/-- What stays after the authority was asked is what the mode keeps. -/
theorem map_askAuthority (hmode : mode ≠ .none)
    (hevidence : ∀ c ∈ ranking, c.evidence = evidence) :
    (askAuthority ask mode evidence ranking).1.map Candidate.judged =
      ((judge (some ask) mode ranking).filter (keeps mode ·.2)).map
        fun entry => (entry.1.subject, entry.2) := by
  rw [(askAuthority_spec hmode).1, judge_some hmode hevidence, List.filter_map, List.filter_map,
    List.map_map]
  rfl

/-- A function of the candidates alone is the same along the positions. -/
theorem map_zipIdx_fst {β : Type} (f : Candidate → β) :
    (ranking.zipIdx.map fun entry => f entry.1) = ranking.map f := by
  rw [← Function.comp_def f Prod.fst, ← List.map_map, List.zipIdx_map_fst]

/-- **The step of the Path Authority** keeps what the mode keeps under the verdicts; when it refuses
the call, a best effort would have kept nothing. -/
theorem validateCandidates_spec
    (hdeclared : mode = .none ∨ mode = .bestEffort ∨ mode = .required)
    (hevidence : ∀ c ∈ ranking, c.evidence = result.evidence)
    (hauthority : ∀ c ∈ ranking, c.authority = .notRequested) :
    match validateCandidates authority mode view truncated result ranking with
    | .ok out => out.map Candidate.judged =
        ((judge authority mode ranking).filter (keeps mode ·.2)).map
          fun entry => (entry.1.subject, entry.2)
    | .error final => (final.status = .unsupported ∨ final.status = .revalidationRequired) ∧
        (mode = .bestEffort → (judge authority mode ranking).filter (keeps mode ·.2) = []) := by
  unfold validateCandidates
  by_cases hmode : mode = .none
  · -- no verdict is asked for
    subst hmode
    rw [if_pos (Or.inl rfl)]
    have hkeeps : (judge authority .none ranking).filter (keeps .none ·.2) =
        judge authority .none ranking := List.filter_eq_self.mpr fun _ _ => rfl
    dsimp only
    rw [hkeeps, judge, List.map_map]
    refine Eq.trans ?_ (map_zipIdx_fst fun c => (c.subject, AuthorityValidation.notRequested)).symm
    refine List.map_congr_left fun c hc => ?_
    rw [Candidate.judged, hauthority c hc]
  by_cases hempty : ranking.isEmpty = true
  · rw [if_pos (Or.inr hempty), List.isEmpty_iff.mp hempty]
    rfl
  rw [if_neg (not_or.mpr ⟨hmode, hempty⟩)]
  cases authority with
  | none =>
    dsimp only
    by_cases hrequired : mode = .required
    · rw [if_pos hrequired]
      exact ⟨Or.inl rfl, fun hbest => absurd (hrequired.symm.trans hbest) (by decide)⟩
    · rw [if_neg hrequired]
      obtain rfl := (hdeclared.resolve_left hmode).resolve_right hrequired
      have hkeeps : (judge none .bestEffort ranking).filter (keeps .bestEffort ·.2) =
          judge none .bestEffort ranking := by
        refine List.filter_eq_self.mpr fun entry he => ?_
        rw [judge_none hmode] at he
        obtain ⟨_, -, rfl⟩ := List.mem_map.mp he
        rfl
      dsimp only
      rw [hkeeps, judge_none hmode, List.map_map, List.map_map]
      exact (map_zipIdx_fst fun c => (c.subject, AuthorityValidation.unavailable)).symm
  | some ask =>
    have hasked := @map_askAuthority ask mode result.evidence ranking hmode hevidence
    dsimp only
    by_cases hlost : ((askAuthority ask mode result.evidence ranking).1.isEmpty &&
        (askAuthority ask mode result.evidence ranking).2) = true
    · rw [if_pos hlost]
      have hnone := List.isEmpty_iff.mp (Bool.and_eq_true_iff.mp hlost).1
      rw [hnone, List.map_nil] at hasked
      exact ⟨Or.inr rfl, fun _ => List.map_eq_nil_iff.mp hasked.symm⟩
    · rw [if_neg hlost]
      dsimp only
      rw [map_numberCandidates_judged, hasked]

/-- **An authority that answers no question** about a ranking loses all of it, without a refusal. -/
theorem validateCandidates_of_unanswered (hevidence : ∀ c ∈ ranking, c.evidence = result.evidence)
    (hopen : ∀ entry ∈ judge (some ask) .required ranking,
      entry.2 = .unavailable ∨ entry.2 = .notRequested) :
    validateCandidates (some ask) .required view truncated result ranking = .ok [] := by
  have hmode : AuthorityValidationMode.required ≠ .none := by decide
  unfold validateCandidates
  by_cases hempty : ranking.isEmpty = true
  · rw [if_pos (Or.inr hempty), List.isEmpty_iff.mp hempty]
  rw [if_neg (not_or.mpr ⟨hmode, hempty⟩)]
  have hnone : (askAuthority ask .required result.evidence ranking).1 = [] := by
    have hasked := @map_askAuthority ask .required result.evidence ranking hmode hevidence
    have hdropped : (judge (some ask) .required ranking).filter (keeps .required ·.2) = [] := by
      refine List.filter_eq_nil_iff.mpr fun entry he => ?_
      rcases hopen entry he with h | h <;> exact h ▸ Bool.false_ne_true
    rw [hdropped] at hasked
    exact List.map_eq_nil_iff.mp hasked
  have hflag : (askAuthority ask .required result.evidence ranking).2 = false := by
    rw [(askAuthority_spec hmode).2, List.any_eq_false]
    intro entry he hrejected
    have hmem : (entry.1, ask entry.2 entry.1.path result.evidence) ∈
        judge (some ask) .required ranking :=
      (judge_some hmode hevidence) ▸ List.mem_map.mpr ⟨entry, he, rfl⟩
    rw [decide_eq_true_eq] at hrejected
    rcases hopen _ hmem with h | h <;> exact absurd (hrejected.symm.trans h) (by decide)
  dsimp only
  rw [hnone, hflag, if_neg (by decide)]
  rfl

end Authority

/-! ## What is found -/

section Found

variable {sha : List UInt8 → Sha256Digest} {limits : ResourceLimits} {request : PlanningRequest}
  {built : BuiltView}

/-- Before the Path Authority is consulted no candidate has a verdict. -/
theorem findCandidates_authority :
    ∀ c ∈ (findCandidates sha limits request built).candidates, c.authority = .notRequested := by
  unfold findCandidates
  dsimp only
  split_ifs
  · intro c hc
    rw [Option.mem_toList, Option.map_eq_some_iff] at hc
    obtain ⟨cost, -, rfl⟩ := hc
    rfl
  · exact fun c hc => absurd hc List.not_mem_nil
  · rw [enumerateCandidates_candidates]
    dsimp only
    split_ifs
    · intro c hc
      obtain ⟨raw, -, hraw⟩ := List.mem_filterMap.mp hc
      unfold candidateOf at hraw
      dsimp only at hraw
      split at hraw
      · cases hraw
      · split_ifs at hraw
        rw [← Option.some.inj hraw]
    · exact fun c hc => absurd hc List.not_mem_nil

/-- An enumeration that finds candidates records no failure and no limit. -/
theorem enumerateCandidates_decided
    (h : (enumerateCandidates sha limits request built).candidates ≠ []) :
    (enumerateCandidates sha limits request built).failure = none ∧
      (enumerateCandidates sha limits request built).resourceLimit = false := by
  rw [enumerateCandidates_candidates] at h
  dsimp only at h
  -- a limited enumeration returns no paths, and an unlimited one leaves the budget unexhausted
  have hlimit : (enumerateCandidatePaths built.view request
      (enumerationOptions limits request built) (initialWork limits)).1.resourceLimit = false := by
    rw [← Bool.not_eq_true]
    intro hlimit
    rw [(enumerateCandidatePaths_limited hlimit).2, List.filterMap_nil, ite_self] at h
    exact h rfl
  have hexhausted := exhausted_eq_false hlimit
  have hok : (enumerateCandidatePaths built.view request
      (enumerationOptions limits request built) (initialWork limits)).1.ok = true := by
    by_contra hok
    rw [Bool.not_eq_true] at hok
    rw [hok, hlimit] at h
    exact h rfl
  unfold enumerateCandidates
  simp only [hok, hexhausted, if_true]
  exact ⟨rfl, rfl⟩

/-- **A call that finds something** records no failure and no limit. -/
theorem findCandidates_decided (h : (findCandidates sha limits request built).candidates ≠ []) :
    (findCandidates sha limits request built).failure = none ∧
      (findCandidates sha limits request built).resourceLimit = false := by
  unfold findCandidates at h ⊢
  dsimp only at h ⊢
  split_ifs at h ⊢
  · exact ⟨rfl, rfl⟩
  · exact absurd rfl h
  · exact enumerateCandidates_decided h

end Found

/-! ## Calls that lose what they found -/

namespace Reaches

variable {sha : List UInt8 → Sha256Digest} {capture : PlanCapture} {request : PlanningRequest}
  (r : Reaches capture request)

theorem ranked_evidence : ∀ c ∈ r.ranked sha, c.evidence = r.resolved.evidence := by
  intro c hc
  obtain ⟨_, -, rfl⟩ := List.mem_map.mp hc
  rfl

theorem ranked_authority : ∀ c ∈ r.ranked sha, c.authority = .notRequested := by
  intro c hc
  obtain ⟨numbered, hnumbered, rfl⟩ := List.mem_map.mp hc
  obtain ⟨i, hi, rfl⟩ := List.mem_mapIdx.mp hnumbered
  have hfound := mem_of_mem_sortCandidates (List.getElem_mem hi)
  have hnone := findCandidates_authority _ hfound
  exact hnone

/-- **A call without candidates** is classified by the exclusions of its view, when the view has a path
within the hop bound and nothing else has failed. -/
theorem emptyOutcome_status_of_path {path : List ℕ} (hpath : IsCandidatePath r.built.view
    r.built.sourceView r.built.destinationView request.constraints.hopBound path)
    (hfailure : ∀ code ∈ (r.found sha).failure, code = .noStructuralPath)
    (hlimit : (r.found sha).resourceLimit = false) :
    (r.computed sha []).result.status =
      statusForFailure (primaryFailure r.built.view.rejections true) := by
  have hbuilt := buildView_eq_ok r.builds
  obtain ⟨hv, ⟨hsource, -⟩, -⟩ := buildPlanningView_isCheckedView hbuilt
  -- the path bounds the structural distance
  obtain ⟨d, hd, hdistance⟩ : ∃ d ≤ path.length, structuralHopDistance r.snapshot
      r.resolved.sourceNode r.resolved.destinationNode request = some d :=
    structuralHopDistance_le hbuilt hpath.isWalk hpath.finish
  have hwithin : ∀ hops ∈ request.constraints.maxHops, d ≤ hops.value := by
    intro hops hhops
    rcases hpath.withinHops with hnone | hle
    · have hbound : request.constraints.hopBound = hops.value := by
        rw [ConstraintSet.hopBound, hhops]
      have hlength := hv.wellFormed.length_lt_of_isSimple hsource hpath.isWalk hpath.isSimple
      have hcount := hv.wellFormed.nodeCount_lt
      rw [← hbound, hnone]
      unfold noHopBound
      omega
    · rw [ConstraintSet.hopBound, hhops] at hle
      exact hd.trans hle
  have hfilter : (r.found sha).failure.filter (· ≠ .noStructuralPath) = none := by
    rw [Option.filter_eq_none_iff]
    intro code hcode
    simp [hfailure code hcode]
  change (emptyOutcome r.snapshot request r.built.view (r.found sha)
    { r.resolved with truncated := (r.found sha).truncated }).status = _
  unfold emptyOutcome
  simp only [hfilter, hlimit, hdistance, Bool.false_eq_true, if_false, Option.isSome_some]
  cases hhops : request.constraints.maxHops with
  | none => rfl
  | some hops =>
    have hbound : decide (d > hops.value) = false :=
      decide_eq_false (not_lt.mpr (hwithin hops hhops))
    simp only [hbound, Bool.false_eq_true, if_false]

/-- **A call that loses what it has found** is classified by the exclusions of its view. -/
theorem emptyOutcome_status (h : r.ranked sha ≠ []) :
    (r.computed sha []).result.status =
      statusForFailure (primaryFailure r.built.view.rejections true) := by
  have hfound := mt r.ranked_eq_nil_iff.mpr h
  obtain ⟨hfailure, hlimit⟩ : (r.found sha).failure = none ∧ (r.found sha).resourceLimit = false :=
    findCandidates_decided hfound
  obtain ⟨hv, ⟨hsource, -⟩, -⟩ := buildPlanningView_isCheckedView (buildView_eq_ok r.builds)
  obtain ⟨c, hc⟩ := List.exists_mem_of_ne_nil _ hfound
  obtain ⟨path, hpath, -⟩ := (findCandidates_sound hv hsource).1 c hc
  refine r.emptyOutcome_status_of_path hpath.candidate (fun code hcode => ?_) hlimit
  rw [hfailure] at hcode
  cases hcode

end Reaches

end PathPlanner
