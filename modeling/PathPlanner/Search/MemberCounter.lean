import PathPlanner.Search.RawPath
import PathPlanner.Search.Shortest

/-!
# The counter vector of the member limit

`DomainMemberLimitCompliant` counts in a vector of pairs sorted by domain: a domain is looked up by
binary search, gets a counter of its own at the position found when it has none, and the counter is
incremented in 32 bits. The test of `RawPath` counts in a function instead. The vector refines the
function as long as no counter wraps around, and a path has too few hops for that.

## Main definitions

* `CounterVector.openCounter`, `CounterVector.countMember`: one insertion, one increment
* `CounterVector.domainMemberLimitCompliant`: both loops
* `CounterVector.Represents`: the vector holds the counts of a function

## Main results

* `CounterVector.isSorted_openCounter`, `CounterVector.isSorted_countMember`: the order is kept
* `CounterVector.domainMemberLimitCompliant_eq`: the vector computes the test of `RawPath`
* `CounterVector.domainMemberLimitCompliant_isCompliant`: the test is the plain count of the
  traversed links of each domain, and the vector is strictly sorted all the way
-/

namespace PathPlanner

open SortedList Multigraph

/-- The counters, each behind its domain. -/
abbrev CounterVector := List (FailureDomainId × UInt32)

namespace CounterVector

/-! ## One domain of one link -/

/-- The vector with a counter at the lower bound of `domain`, inserted as zero when the domain has
none. -/
def openCounter (counts : CounterVector) (domain : FailureDomainId) : CounterVector :=
  let position := lowerBound Prod.fst counts domain
  match counts[position]? with
  | some item => if item.1 ≠ domain then counts.insertIdx position (domain, 0) else counts
  | none => counts.insertIdx position (domain, 0)

/-- The body of the inner loop: the counter of the domain is incremented and compared. -/
def countMember (limit : UInt32) (counts : CounterVector) (domain : FailureDomainId) :
    Option CounterVector :=
  let position := lowerBound Prod.fst counts domain
  let counts := (openCounter counts domain).modify position fun item => (item.1, item.2 + 1)
  if counts[position]?.any fun item => item.2 > limit then none else some counts

/-- The body of the outer loop. -/
def countLink (view : PlanningView) (limit : UInt32) (failClosed : Bool) (counts : CounterVector)
    (k : ℕ) : Option CounterVector :=
  let membership := view.linkMembership k
  if !membership.known then (if failClosed then none else some counts)
  else membership.domains.foldlM (countMember limit) counts

/-- `DomainMemberLimitCompliant`. -/
def domainMemberLimitCompliant (view : PlanningView) (raw : RawPath) (limit : UInt32)
    (failClosed : Bool) : Bool :=
  if raw.adjacency.isEmpty then true
  else (raw.adjacency.foldlM (countLink view limit failClosed) []).isSome

/-- The counters are in the order of their domains, each domain once. -/
def IsSorted (counts : CounterVector) : Prop := counts.Pairwise (·.1 < ·.1)

/-- The counter of a domain; a domain without one has been met on no link. -/
def countOf (counts : CounterVector) (domain : FailureDomainId) : UInt32 :=
  ((find? Prod.fst counts domain).map Prod.snd).getD 0

/-- The vector is sorted and holds the counts of `f`. -/
structure Represents (counts : CounterVector) (f : FailureDomainId → ℕ) : Prop where
  isSorted : counts.IsSorted
  countOf_eq : ∀ domain, (counts.countOf domain).toNat = f domain

section OneDomain

variable {counts before after : CounterVector} {domain other : FailureDomainId} {n : UInt32}
  {limit : UInt32} {counts' : CounterVector} {f : FailureDomainId → ℕ}

theorem isSorted_append_cons : IsSorted (before ++ (domain, n) :: after) ↔
    IsSorted before ∧ IsSorted after ∧ (∀ x ∈ before, x.1 < domain) ∧
      (∀ x ∈ after, domain < x.1) ∧ ∀ x ∈ before, ∀ y ∈ after, x.1 < y.1 := by
  simp only [IsSorted, List.pairwise_append, List.pairwise_cons, List.mem_cons, forall_eq_or_imp]
  constructor
  · rintro ⟨hb, ⟨hd, ha⟩, h⟩
    exact ⟨hb, ha, fun x hx => (h x hx).1, hd, fun x hx => (h x hx).2⟩
  · rintro ⟨hb, ha, hlt, hd, h⟩
    exact ⟨hb, ⟨hd, ha⟩, fun x hx => ⟨hlt x hx, h x hx⟩⟩

/-- The order does not depend on the counts. -/
theorem IsSorted.recount (h : IsSorted (before ++ (domain, n) :: after)) (m : UInt32) :
    IsSorted (before ++ (domain, m) :: after) :=
  isSorted_append_cons.mpr (isSorted_append_cons.mp h)

/-- Inserting behind a prefix. -/
theorem insertIdx_append (item : FailureDomainId × UInt32) :
    (before ++ after).insertIdx before.length item = before ++ item :: after := by
  induction before with
  | nil => rfl
  | cons first before ih => simp [List.insertIdx_succ_cons, ih]

/-- Changing the entry behind a prefix. -/
theorem modify_append_cons (g : FailureDomainId × UInt32 → FailureDomainId × UInt32)
    (item : FailureDomainId × UInt32) :
    (before ++ item :: after).modify before.length g = before ++ g item :: after := by
  induction before with
  | nil => rfl
  | cons first before ih => simp [List.modify_succ_cons, ih]

/-- A sorted vector holds the counter that stands between smaller and larger domains. -/
theorem countOf_append_cons (h : IsSorted (before ++ (domain, n) :: after)) :
    countOf (before ++ (domain, n) :: after) domain = n := by
  have hfind := (find?_eq_some_iff h (v := domain) (x := (domain, n))).mpr ⟨by simp, rfl⟩
  rw [countOf, hfind]
  rfl

/-- The counters of the other domains do not depend on it. -/
theorem countOf_append_cons_of_ne (h : IsSorted (before ++ (domain, n) :: after))
    (hne : other ≠ domain) :
    countOf (before ++ (domain, n) :: after) other = countOf (before ++ after) other := by
  have hsorted : IsSorted (before ++ after) := by
    obtain ⟨hb, ha, -, -, hcross⟩ := isSorted_append_cons.mp h
    exact List.pairwise_append.mpr ⟨hb, ha, hcross⟩
  have hfind : find? Prod.fst (before ++ (domain, n) :: after) other =
      find? Prod.fst (before ++ after) other := by
    refine Option.ext fun x => ?_
    rw [find?_eq_some_iff h, find?_eq_some_iff hsorted]
    refine and_congr_left fun hx => ?_
    have : x ≠ (domain, n) := fun he => hne (hx ▸ congrArg Prod.fst he)
    simp [this]
  rw [countOf, hfind, countOf]

/-- A sorted vector splits at the lower bound of a domain. -/
theorem exists_split (h : counts.IsSorted) (domain : FailureDomainId) :
    ∃ before after, counts = before ++ after ∧
      lowerBound Prod.fst counts domain = before.length ∧
      (∀ x ∈ before, x.1 < domain) ∧ ∀ x ∈ after, domain ≤ x.1 := by
  have hle : counts.Pairwise (·.1 ≤ ·.1) := h.imp le_of_lt
  have hlength : lowerBound Prod.fst counts domain ≤ counts.length :=
    (List.takeWhile_sublist _).length_le
  refine ⟨counts.take (lowerBound Prod.fst counts domain),
    counts.drop (lowerBound Prod.fst counts domain), (List.take_append_drop _ _).symm, ?_, ?_, ?_⟩
  · rw [List.length_take, min_eq_left hlength]
  · intro x hx
    obtain ⟨j, hj⟩ := List.mem_iff_getElem?.mp hx
    rw [List.getElem?_take] at hj
    split_ifs at hj with hlt
    exact lt_of_lt_lowerBound hlt hj
  · intro x hx
    obtain ⟨j, hj⟩ := List.mem_iff_getElem?.mp hx
    rw [List.getElem?_drop] at hj
    exact le_of_lowerBound_le hle (Nat.le_add_right _ j) hj

/-- **The position found**: in a sorted vector the counter opened for the domain stands between the
smaller and the larger domains and has the count of the domain so far. -/
theorem exists_openCounter (h : counts.IsSorted) (domain : FailureDomainId) :
    ∃ before after, openCounter counts domain = before ++ (domain, counts.countOf domain) :: after ∧
      lowerBound Prod.fst counts domain = before.length ∧
      IsSorted (before ++ (domain, counts.countOf domain) :: after) ∧
      ∀ other, other ≠ domain → countOf (before ++ after) other = counts.countOf other := by
  obtain ⟨before, after, rfl, hposition, hlt, hge⟩ := exists_split h domain
  obtain ⟨hb, ha, hcross⟩ := List.pairwise_append.mp h
  have hget : (before ++ after)[before.length]? = after.head? := by
    rw [List.getElem?_append_right le_rfl, Nat.sub_self, List.head?_eq_getElem?]
  by_cases hhead : ∃ n rest, after = (domain, n) :: rest
  · -- the domain has a counter: nothing is inserted
    obtain ⟨n, rest, rfl⟩ := hhead
    refine ⟨before, rest, ?_, hposition, ?_, fun other hne => (countOf_append_cons_of_ne h hne).symm⟩
    · rw [countOf_append_cons h]
      simp [openCounter, hposition]
    · rw [countOf_append_cons h]
      exact h
  · -- the domain has none: every domain from the position on is larger
    have hgt : ∀ x ∈ after, domain < x.1 := by
      intro x hx
      refine lt_of_le_of_ne (hge x hx) fun he => hhead ?_
      cases after with
      | nil => exact absurd hx List.not_mem_nil
      | cons first rest =>
        refine ⟨first.2, rest, congrArg (· :: rest) (Prod.ext ?_ rfl)⟩
        refine le_antisymm ?_ (hge first List.mem_cons_self)
        rcases List.mem_cons.mp hx with rfl | hrest
        · exact he.ge
        · exact ((List.pairwise_cons.mp ha).1 x hrest).le.trans he.ge
    have hnone : (before ++ after).countOf domain = 0 := by
      have hfind : find? Prod.fst (before ++ after) domain = none := by
        rw [find?_eq_none_iff (h.imp le_of_lt)]
        intro x hx
        rcases List.mem_append.mp hx with hx | hx
        · exact (hlt x hx).ne
        · exact (hgt x hx).ne'
      rw [countOf, hfind]
      rfl
    have hsorted : IsSorted (before ++ (domain, 0) :: after) :=
      isSorted_append_cons.mpr ⟨hb, ha, hlt, hgt, hcross⟩
    rw [hnone]
    refine ⟨before, after, ?_, hposition, hsorted, fun _ _ => rfl⟩
    unfold openCounter
    dsimp only
    rw [hposition, hget, insertIdx_append]
    cases after with
    | nil => rfl
    | cons first rest => exact if_pos (hgt first List.mem_cons_self).ne'

/-- **An insertion keeps the vector** strictly sorted. -/
theorem isSorted_openCounter (h : counts.IsSorted) (domain : FailureDomainId) :
    IsSorted (openCounter counts domain) := by
  obtain ⟨before, after, hopen, -, hsorted, -⟩ := exists_openCounter h domain
  rw [hopen]
  exact hsorted

/-- Counting a link once for a domain, with the vector split at the domain. -/
theorem exists_countMember (h : counts.IsSorted) (limit : UInt32) (domain : FailureDomainId) :
    ∃ before after, IsSorted (before ++ (domain, counts.countOf domain + 1) :: after) ∧
      (∀ other, other ≠ domain → countOf (before ++ after) other = counts.countOf other) ∧
      countMember limit counts domain =
        if counts.countOf domain + 1 > limit then none
        else some (before ++ (domain, counts.countOf domain + 1) :: after) := by
  obtain ⟨before, after, hopen, hposition, hsorted, hother⟩ := exists_openCounter h domain
  refine ⟨before, after, hsorted.recount _, hother, ?_⟩
  unfold countMember
  dsimp only
  rw [hopen, hposition, modify_append_cons]
  simp

/-- An increment keeps the vector strictly sorted. -/
theorem isSorted_countMember (h : counts.IsSorted)
    (hcount : countMember limit counts domain = some counts') : counts'.IsSorted := by
  obtain ⟨before, after, hsorted, -, heq⟩ := exists_countMember h limit domain
  rw [heq] at hcount
  split_ifs at hcount
  exact Option.some.inj hcount ▸ hsorted

/-- **One increment refines the count**, unless the counter wraps around. -/
theorem Represents.countMember (h : Represents counts f) (hroom : f domain + 1 < 2 ^ 32) :
    Option.Rel Represents (CounterVector.countMember limit counts domain)
      (PathPlanner.countMember limit.toNat f domain) := by
  obtain ⟨before, after, hsorted, hother, heq⟩ := exists_countMember h.isSorted limit domain
  have hcount : (counts.countOf domain + 1).toNat = f domain + 1 := by
    rw [UInt32.toNat_add, h.countOf_eq]
    exact Nat.mod_eq_of_lt hroom
  have hlimit : counts.countOf domain + 1 > limit ↔ f domain + 1 > limit.toNat := by
    rw [← hcount]
    exact UInt32.lt_iff_toNat_lt
  rw [heq, PathPlanner.countMember]
  simp only [hlimit]
  split_ifs
  · exact .none
  · refine .some ⟨hsorted, fun other => ?_⟩
    by_cases hne : other = domain
    · rw [hne, countOf_append_cons hsorted, Function.update_self, hcount]
    · rw [countOf_append_cons_of_ne hsorted hne, hother other hne, Function.update_of_ne hne,
        h.countOf_eq]

end OneDomain

/-! ## Both loops -/

section Loops

variable {view : PlanningView} {limit : UInt32} {failClosed : Bool} {counts counts' : CounterVector}
  {domains : List FailureDomainId} {f : FailureDomainId → ℕ} {k : ℕ} {adjacency : List ℕ}

theorem isSorted_foldlM_countMember (h : counts.IsSorted)
    (hrun : domains.foldlM (countMember limit) counts = some counts') : counts'.IsSorted := by
  induction domains generalizing counts with
  | nil => exact Option.some.inj hrun ▸ h
  | cons domain domains ih =>
    rw [List.foldlM_cons, Option.bind_eq_bind, Option.bind_eq_some_iff] at hrun
    obtain ⟨next, hnext, hrest⟩ := hrun
    exact ih (isSorted_countMember h hnext) hrest

theorem isSorted_countLink (h : counts.IsSorted)
    (hrun : countLink view limit failClosed counts k = some counts') : counts'.IsSorted := by
  unfold countLink at hrun
  dsimp only at hrun
  split_ifs at hrun
  · exact Option.some.inj hrun ▸ h
  · exact isSorted_foldlM_countMember h hrun

theorem isSorted_foldlM_countLink (h : counts.IsSorted)
    (hrun : adjacency.foldlM (countLink view limit failClosed) counts = some counts') :
    counts'.IsSorted := by
  induction adjacency generalizing counts with
  | nil => exact Option.some.inj hrun ▸ h
  | cons k adjacency ih =>
    rw [List.foldlM_cons, Option.bind_eq_bind, Option.bind_eq_some_iff] at hrun
    obtain ⟨next, hnext, hrest⟩ := hrun
    exact ih (isSorted_countLink h hnext) hrest

/-- The inner loop refines the count of its domains. -/
theorem Represents.foldlM_countMember (h : Represents counts f) (hn : domains.Nodup)
    (hroom : ∀ d ∈ domains, f d + 1 < 2 ^ 32) :
    Option.Rel Represents (domains.foldlM (CounterVector.countMember limit) counts)
      (domains.foldlM (PathPlanner.countMember limit.toNat) f) := by
  induction domains generalizing counts f with
  | nil => exact .some h
  | cons domain domains ih =>
    obtain ⟨hnot, hn⟩ := List.nodup_cons.mp hn
    have hhead : Option.Rel Represents (CounterVector.countMember limit counts domain)
        (PathPlanner.countMember limit.toNat f domain) :=
      h.countMember (hroom domain List.mem_cons_self)
    rw [List.foldlM_cons, List.foldlM_cons]
    revert hhead
    generalize hf : PathPlanner.countMember limit.toNat f domain = g'
    generalize CounterVector.countMember limit counts domain = next'
    rintro (⟨hnext⟩ | _)
    · -- the domains left have the counts they had
      refine ih hnext hn fun d hd => ?_
      have hne : d ≠ domain := fun he => hnot (he ▸ hd)
      rw [PathPlanner.countMember] at hf
      split_ifs at hf
      rw [← Option.some.inj hf, Function.update_of_ne hne]
      exact hroom d (List.mem_cons_of_mem _ hd)
    · exact .none

/-- The outer loop body refines the count of the link. -/
theorem Represents.countLink (h : Represents counts f) (hroom : ∀ d, f d + 1 < 2 ^ 32) :
    Option.Rel Represents (CounterVector.countLink view limit failClosed counts k)
      (PathPlanner.countLink view limit.toNat failClosed f k) := by
  unfold CounterVector.countLink PathPlanner.countLink
  dsimp only
  split_ifs
  · exact .none
  · exact .some h
  · exact h.foldlM_countMember (nodup_membershipOf _ _) fun d _ => hroom d

/-- **The outer loop refines the count**: every counter has room for the links still ahead. -/
theorem Represents.foldlM_countLink (h : Represents counts f)
    (hroom : ∀ d, f d + adjacency.length < 2 ^ 32) :
    Option.Rel Represents (adjacency.foldlM (CounterVector.countLink view limit failClosed) counts)
      (adjacency.foldlM (PathPlanner.countLink view limit.toNat failClosed) f) := by
  induction adjacency generalizing counts f with
  | nil => exact .some h
  | cons k adjacency ih =>
    rw [List.length_cons] at hroom
    have hhead : Option.Rel Represents (CounterVector.countLink view limit failClosed counts k)
        (PathPlanner.countLink view limit.toNat failClosed f k) :=
      h.countLink fun d => by have := hroom d; omega
    rw [List.foldlM_cons, List.foldlM_cons]
    revert hhead
    generalize hf : PathPlanner.countLink view limit.toNat failClosed f k = g'
    generalize CounterVector.countLink view limit failClosed counts k = next'
    rintro (⟨hnext⟩ | _)
    · refine ih hnext fun d => ?_
      -- one link adds at most one to each count
      obtain ⟨-, -, hcounts⟩ := countLink_eq_some_iff.mp hf
      have := hroom d
      rw [hcounts]
      split_ifs <;> omega
    · exact .none

end Loops

end CounterVector

/-! ## The test on a path -/

/-- A path over the view: entries that lead from node to node, either without meeting a node twice
or with few enough hops for 32 bits to count them. -/
structure PlanningView.IsPath (view : PlanningView) (raw : RawPath) : Prop where
  exists_walk : ∃ u < view.nodeCount, view.graph.IsWalk u raw.adjacency ∧
    raw = view.rawPath u raw.adjacency
  isShort : raw.nodes.Nodup ∨ raw.adjacency.length < 2 ^ 32

/-- The link behind an entry is a published member of the domain. -/
def PlanningView.IsPublishedMember (view : PlanningView) (domain : FailureDomainId) (k : ℕ) : Prop :=
  ∃ r ∈ view.snapshot.failureDomains.domains,
    r.domain = domain ∧ SubjectKey.forLink (view.linkAt k) ∈ r.members

instance (view : PlanningView) (domain : FailureDomainId) :
    DecidablePred (view.IsPublishedMember domain) :=
  fun _ => inferInstanceAs (Decidable (∃ _ ∈ _, _))

/-- The membership of the link behind an entry is known: it is a published member of some domain,
or the published memberships are complete. -/
def PlanningView.IsMembershipKnown (view : PlanningView) (k : ℕ) : Prop :=
  (∃ domain, view.IsPublishedMember domain k) ∨
    view.snapshot.failureDomains.membershipComplete = true

section Path

variable {view : PlanningView} {raw : RawPath} {limit : UInt32} {failClosed : Bool}
  {domain : FailureDomainId} {k : ℕ}

theorem PlanningView.mem_linkMembership :
    domain ∈ (view.linkMembership k).domains ↔ view.IsPublishedMember domain k :=
  FailureDomainView.mem_membershipOf

theorem PlanningView.linkMembership_known_iff :
    (view.linkMembership k).known = true ↔ view.IsMembershipKnown k := by
  rw [linkMembership, FailureDomainView.membershipOf_known_iff]
  refine or_congr_left ⟨?_, ?_⟩
  · rintro ⟨r, hr, hm⟩
    exact ⟨r.domain, r, hr, rfl, hm⟩
  · rintro ⟨_, r, hr, -, hm⟩
    exact ⟨r, hr, hm⟩

theorem PlanningView.IsPath.length_lt (wf : view.WellFormed) (h : view.IsPath raw) :
    raw.adjacency.length < 2 ^ 32 := by
  rcases h.isShort with hn | hlt
  · obtain ⟨u, hu, hwalk, hraw⟩ := h.exists_walk
    rw [hraw] at hn
    exact (wf.length_lt_of_isSimple hu hwalk hn).trans wf.nodeCount_lt
  · exact hlt

namespace CounterVector

/-- **The vector computes the count** of `RawPath` on every path. -/
theorem domainMemberLimitCompliant_eq (wf : view.WellFormed) (h : view.IsPath raw) :
    domainMemberLimitCompliant view raw limit failClosed =
      PathPlanner.domainMemberLimitCompliant view raw limit.toNat failClosed := by
  have hempty : Represents [] fun _ => 0 := ⟨.nil, fun _ => rfl⟩
  have hrel : Option.Rel Represents (raw.adjacency.foldlM (countLink view limit failClosed) [])
      (raw.adjacency.foldlM (PathPlanner.countLink view limit.toNat failClosed) fun _ => 0) :=
    hempty.foldlM_countLink fun _ => by simpa using h.length_lt wf
  unfold domainMemberLimitCompliant PathPlanner.domainMemberLimitCompliant
  split_ifs
  · rfl
  · revert hrel
    generalize raw.adjacency.foldlM (countLink view limit failClosed) [] = counts
    generalize raw.adjacency.foldlM (PathPlanner.countLink view limit.toNat failClosed) _ = f
    rintro (_ | _) <;> rfl

/-- **The member limit**: the test accepts a path exactly when every failure domain has at most
`limit` of its traversed links as published members and, failing closed, every traversed link has a
known membership. Wherever the loops stand, the counter vector is strictly sorted by domain, and so
it is after the insertion for whichever domain comes next. -/
theorem domainMemberLimitCompliant_isCompliant (wf : view.WellFormed) (h : view.IsPath raw)
    (limit : UInt32) (failClosed : Bool) :
    (domainMemberLimitCompliant view raw limit failClosed = true ↔
      (∀ domain, raw.adjacency.countP (view.IsPublishedMember domain) ≤ limit.toNat) ∧
        (failClosed = true → ∀ k ∈ raw.adjacency, view.IsMembershipKnown k)) ∧
    ∀ before k after, raw.adjacency = before ++ k :: after →
      ∀ done rest, (view.linkMembership k).domains = done ++ rest →
        ∀ counts, (before.foldlM (countLink view limit failClosed) [] >>=
            done.foldlM (countMember limit)) = some counts →
          counts.IsSorted ∧ ∀ domain ∈ rest, (openCounter counts domain).IsSorted := by
  constructor
  · rw [domainMemberLimitCompliant_eq wf h, PathPlanner.domainMemberLimitCompliant_iff,
      MemberLimitRespected, and_comm]
    refine and_congr ?_ ?_
    · simp only [PlanningView.mem_linkMembership]
    · simp only [PlanningView.linkMembership_known_iff]
  · intro before k after _ done rest _ counts hrun
    rw [Option.bind_eq_bind, Option.bind_eq_some_iff] at hrun
    obtain ⟨reached, hbefore, hdone⟩ := hrun
    have hsorted : counts.IsSorted :=
      isSorted_foldlM_countMember (isSorted_foldlM_countLink .nil hbefore) hdone
    exact ⟨hsorted, fun domain _ => isSorted_openCounter hsorted domain⟩

end CounterVector

end Path

/-! ## A path of two links that share a domain -/

/-- Three nodes in a line. The later domain holds both links and the earlier one only the second. -/
def sharedAndOwn : FabricSnapshot :=
  ((FabricSnapshotBuilder.ofLinks [1, 2, 3] [(1, 2), (2, 3)]).setFailureDomains
    [{ domain := .tagged 0 1, riskClass := .tagged 0 1, members := [.forLink (.tagged 0 2)] },
      { domain := .tagged 0 2, riskClass := .tagged 0 1,
        members := [.forLink (.tagged 0 1), .forLink (.tagged 0 2)] }] true).snapshotWith
    (by decide +kernel) ⟨Vector.replicate 32 4⟩

/-- Its view. -/
def sharedAndOwnView : BuiltView :=
  (buildPlanningView sharedAndOwn (.between 1 3) {} (.tagged 0 1) (.tagged 0 3)).toOption.get
    (by decide +kernel)

theorem sharedAndOwnView_eq : buildPlanningView sharedAndOwn (.between 1 3) {} (.tagged 0 1)
    (.tagged 0 3) = .ok sharedAndOwnView := FabricSnapshotBuilder.eq_ok_get _

/-- With two links allowed in a domain the path through both is accepted, with one it is not. -/
theorem domainMemberLimitCompliant_isCompliant_sharedAndOwn :
    CounterVector.domainMemberLimitCompliant sharedAndOwnView.view
        (sharedAndOwnView.view.rawPath 0 [0, 1]) 2 true = true ∧
      CounterVector.domainMemberLimitCompliant sharedAndOwnView.view
        (sharedAndOwnView.view.rawPath 0 [0, 1]) 1 true = false := by
  have h := @CounterVector.domainMemberLimitCompliant_isCompliant sharedAndOwnView.view
    (sharedAndOwnView.view.rawPath 0 [0, 1])
    (buildPlanningView_isCheckedView sharedAndOwnView_eq).1.wellFormed
    ⟨⟨0, by decide +kernel, by decide +kernel, rfl⟩, Or.inr (by decide)⟩
  constructor
  · refine (h 2 true).1.mpr ⟨fun domain => List.countP_le_length, fun _ k _ => Or.inr ?_⟩
    decide +kernel
  · refine Bool.eq_false_iff.mpr fun hone => ?_
    have hcount := ((h 1 true).1.mp hone).1 (.tagged 0 2)
    exact absurd hcount (by decide +kernel)

end PathPlanner
