import PathPlanner.Core.Canonical
import PathPlanner.Core.Status
import PathPlanner.Library.SortedList
import PathPlanner.Snapshot.Records

/-!
# Paths, costs and ranking

A candidate path is a sequence of node identities with the hops between them. Its cost is
accumulated with checked arithmetic from the cost inputs of its hops, and candidates are ranked by
total cost, hop count and the canonical order of their paths.

## Main definitions

* `PathHop`, `CandidatePath`: the typed path, with `isWellFormed`, `isSimple`, `digest`, `id`
* `CostModel`, `PathCost`, `accumulatePathCost`: the checked cost
* `Candidate`, `compareCanonicalPaths`, `ranksBefore`: ranked planning outputs

## Main results

* `accumulatePathCost_isSome_iff`, `total_of_accumulatePathCost`: the cost exists exactly when the
  hops are few enough and their exact sum is representable, and it is that sum
* `CandidatePath.isSimple_iff`: the simplicity test is absence of repeated nodes
* `ranksBefore_iff`: ranking is the lexicographic order of the ranking keys
-/

namespace PathPlanner

open SortedList

/-! ## Paths -/

/-- `PathHop`. -/
structure PathHop where
  link : LinkId
  source : NodeId
  target : NodeId
  fromPort : PortId
  toPort : PortId
  layer : PathLayer := .physical
  relationship : RelationshipType := .directLink
  structuralGeneration : TopologyGeneration := default
  staticCost : StaticCost := default
  linkState : LinkState := .unknown
  degraded : Bool := false
  deriving DecidableEq

/-- `CandidatePath`. -/
structure CandidatePath where
  source : NodeId := default
  destination : NodeId := default
  layer : PathLayer := .physical
  nodes : List NodeId := []
  hops : List PathHop := []
  deriving DecidableEq

namespace CandidatePath

/-- The loop of `CandidatePath::IsWellFormed`: every hop joins consecutive nodes on the layer. -/
def hopsAgree (layer : PathLayer) : List NodeId → List PathHop → Bool
  | a :: b :: nodes, hop :: hops =>
    hop.source = a && hop.target = b && hop.layer = layer &&
      (hop.link.isValid && hop.fromPort.isValid && hop.toPort.isValid) &&
        hopsAgree layer (b :: nodes) hops
  | _, [] => true
  | _, _ :: _ => false

/-- `CandidatePath::IsWellFormed`. -/
def isWellFormed (path : CandidatePath) : Bool :=
  (path.source.isValid && path.destination.isValid) &&
    path.nodes.length == path.hops.length + 1 && !path.nodes.isEmpty &&
    (path.nodes.head? = some path.source && path.nodes.getLast? = some path.destination) &&
    hopsAgree path.layer path.nodes path.hops

/-- `CandidatePath::IsSimple`. -/
def isSimple (path : CandidatePath) : Bool :=
  if path.nodes.length < 2 then true else !hasDuplicate path.nodes

/-- The simplicity test is absence of repeated nodes. -/
theorem isSimple_iff {path : CandidatePath} : path.isSimple = true ↔ path.nodes.Nodup := by
  unfold isSimple
  split_ifs with h
  · refine ⟨fun _ => ?_, fun _ => rfl⟩
    match hn : path.nodes with
    | [] => exact List.nodup_nil
    | [a] => exact List.nodup_singleton a
    | a :: b :: nodes => simp [hn] at h
  · rw [Bool.not_eq_true', hasDuplicate_eq_false_iff]

/-- `CandidatePath::Encode`. -/
def encode (path : CandidatePath) (writer : ByteWriter) : ByteWriter :=
  let writer := ((writer.u32 pathEncodingVersion).id path.source).id path.destination
  let writer := (writer.u32 path.layer.value).varU64 path.hops.length
  path.hops.foldl (fun writer hop =>
    let writer := ((writer.id hop.link).id hop.source).id hop.target
    let writer := (writer.id hop.fromPort).id hop.toPort
    let writer := (writer.u32 hop.layer.value).u32 hop.relationship.value
    (writer.u64 hop.structuralGeneration.value).u32 hop.staticCost.value) writer

/-- `CandidatePath::Digest`, with `sha` for `Sha256::Hash`. -/
def digest (sha : List UInt8 → Sha256Digest) (path : CandidatePath) : Sha256Digest :=
  let writer := path.encode (ByteWriter.new (256 + path.hops.length * 128))
  if writer.overflowed then Sha256Digest.zero else sha writer.data

/-- `CandidatePath::Id`. -/
def id (sha : List UInt8 → Sha256Digest) (path : CandidatePath) : CandidatePathId :=
  if (path.digest sha).isZero then default else FixedId.fromDigest (path.digest sha)

end CandidatePath

/-! ## Costs -/

/-- `CostModel`. -/
structure CostModel where
  hopCost : CostValue := .ofNat 1
  degradedPenalty : CostValue := .ofNat 0
  localityPenalty : CostValue := .ofNat 0

/-- `PathCost`. -/
structure PathCost where
  hopsCost : CostValue
  staticCost : CostValue
  degradedPenalty : CostValue
  localityPenalty : CostValue
  total : CostValue
  hops : HopCount
  degradedHops : ℕ
  localityBreaches : ℕ
  deriving DecidableEq

/-- `HopCostInput`. -/
structure HopCostInput where
  staticCost : StaticCost
  degraded : Bool
  outsideLocality : Bool

/-- A static cost as a cost. -/
def StaticCost.toCost (cost : StaticCost) : CostValue := .ofNat cost.value

@[simp] theorem StaticCost.value_toCost (cost : StaticCost) :
    (StaticCost.toCost cost).value = cost.value := by
  have := cost.lt
  simp only [StaticCost.toCost, StrongUInt.value_ofNat]
  omega

/-- `AccumulatePathCost`. -/
def accumulatePathCost (hops : List HopCostInput) (model : CostModel) : Option PathCost :=
  if hops.length > maxHopCount then none
  else do
    let hopsCost ← checkedMul model.hopCost hops.length
    let staticCost ← hops.foldlM (fun sum hop => checkedAdd sum hop.staticCost.toCost) (.ofNat 0)
    let degradedHops := hops.countP (·.degraded)
    let localityBreaches := hops.countP (·.outsideLocality)
    let degradedPenalty ← checkedMul model.degradedPenalty degradedHops
    let localityPenalty ← checkedMul model.localityPenalty localityBreaches
    let total ← checkedAdd (.ofNat 0) hopsCost
    let total ← checkedAdd total staticCost
    let total ← checkedAdd total degradedPenalty
    let total ← checkedAdd total localityPenalty
    return {
      hopsCost
      staticCost
      degradedPenalty
      localityPenalty
      total
      hops := .ofNat hops.length
      degradedHops
      localityBreaches }

section Costs

variable {hops : List HopCostInput} {model : CostModel}

/-- The exact cost of one hop. -/
def exactHopCost (model : CostModel) (hop : HopCostInput) : ℕ :=
  model.hopCost.value + (hop.staticCost.value +
    (if hop.degraded then model.degradedPenalty.value else 0) +
    (if hop.outsideLocality then model.localityPenalty.value else 0))

/-- The exact cost of a list of hops. -/
def exactCost (model : CostModel) (hops : List HopCostInput) : ℕ :=
  (hops.map (exactHopCost model)).sum

theorem exactCost_eq : exactCost model hops =
    model.hopCost.value * hops.length + (hops.map (·.staticCost.value)).sum +
      model.degradedPenalty.value * hops.countP (·.degraded) +
        model.localityPenalty.value * hops.countP (·.outsideLocality) := by
  induction hops with
  | nil => simp [exactCost]
  | cons hop hops ih =>
    simp only [exactCost, List.map_cons, List.sum_cons, List.length_cons, List.countP_cons] at ih ⊢
    rw [ih, exactHopCost]
    split_ifs <;> simp [mul_add] <;> ring

/-- Checked summation succeeds exactly when the sum is representable, with that sum. -/
theorem foldlM_checkedAdd_eq_some_iff {start sum : CostValue} :
    hops.foldlM (fun sum hop => checkedAdd sum hop.staticCost.toCost) start = some sum ↔
      start.value + (hops.map (·.staticCost.value)).sum = sum.value := by
  induction hops generalizing start with
  | nil => simp [StrongUInt.ext_iff]
  | cons hop hops ih =>
    rw [List.foldlM_cons, Option.bind_eq_bind, Option.bind_eq_some_iff]
    simp only [ih, checkedAdd_eq_some_iff, StaticCost.value_toCost, List.map_cons, List.sum_cons]
    constructor
    · rintro ⟨mid, hmid, hsum⟩
      omega
    · intro h
      have := sum.lt
      exact ⟨⟨start.value + hop.staticCost.value, by omega⟩, rfl, by simp only; omega⟩

/-- What a cost that was accumulated is. -/
theorem accumulatePathCost_eq_some_iff {cost : PathCost} :
    accumulatePathCost hops model = some cost ↔ hops.length ≤ maxHopCount ∧
      cost.hopsCost.value = model.hopCost.value * hops.length ∧
      cost.staticCost.value = (hops.map (·.staticCost.value)).sum ∧
      cost.degradedPenalty.value = model.degradedPenalty.value * hops.countP (·.degraded) ∧
      cost.localityPenalty.value =
        model.localityPenalty.value * hops.countP (·.outsideLocality) ∧
      cost.total.value = exactCost model hops ∧ cost.hops = .ofNat hops.length ∧
      cost.degradedHops = hops.countP (·.degraded) ∧
      cost.localityBreaches = hops.countP (·.outsideLocality) := by
  unfold accumulatePathCost
  by_cases hl : hops.length > maxHopCount
  · rw [if_pos hl]
    simp only [reduceCtorEq, false_iff]
    omega
  rw [if_neg hl, exactCost_eq]
  simp only [Option.bind_eq_bind, Option.bind_eq_some_iff, checkedMul_eq_some_iff,
    foldlM_checkedAdd_eq_some_iff, checkedAdd_eq_some_iff, Option.pure_def, Option.some_inj]
  constructor
  · rintro ⟨hc, hhc, sc, hsc, dp, hdp, lp, hlp, t₁, h₁, t₂, h₂, t₃, h₃, t₄, h₄, rfl⟩
    simp only [StrongUInt.value_ofNat] at hsc h₁
    have hstatic : sc.value = (hops.map (·.staticCost.value)).sum := by omega
    refine ⟨by omega, hhc.symm, hstatic, hdp.symm, hlp.symm, ?_, rfl, rfl, rfl⟩
    change t₄.value = _
    omega
  · rintro ⟨-, hhc, hsc, hdp, hlp, ht, hh, hd, hb⟩
    have := cost.total.lt
    refine ⟨cost.hopsCost, hhc.symm, cost.staticCost, ?_, cost.degradedPenalty, hdp.symm,
      cost.localityPenalty, hlp.symm, cost.hopsCost, ?_,
      ⟨cost.hopsCost.value + cost.staticCost.value, by omega⟩, rfl,
      ⟨cost.hopsCost.value + cost.staticCost.value + cost.degradedPenalty.value, by omega⟩, rfl,
      cost.total, ?_, ?_⟩
    · simp only [StrongUInt.value_ofNat]
      omega
    · simp only [StrongUInt.value_ofNat]
      omega
    · simp only
      omega
    · rw [← hh, ← hd, ← hb]

/-- **The total** is the exact sum over the hops. -/
theorem total_of_accumulatePathCost {cost : PathCost}
    (h : accumulatePathCost hops model = some cost) :
    cost.total.value = exactCost model hops :=
  (accumulatePathCost_eq_some_iff.mp h).2.2.2.2.2.1

/-- The hop count of a cost that was accumulated. -/
theorem hops_of_accumulatePathCost {cost : PathCost}
    (h : accumulatePathCost hops model = some cost) : cost.hops.value = hops.length := by
  obtain ⟨hl, -, -, -, -, -, hh, -⟩ := accumulatePathCost_eq_some_iff.mp h
  rw [hh, StrongUInt.value_ofNat]
  exact Nat.mod_eq_of_lt (by unfold maxHopCount at hl; omega)

/-- **Accumulation succeeds** exactly when the hops are few enough and the exact sum is
representable. -/
theorem accumulatePathCost_isSome_iff : (accumulatePathCost hops model).isSome ↔
    hops.length ≤ maxHopCount ∧ exactCost model hops < 2 ^ 64 := by
  rw [Option.isSome_iff_exists]
  constructor
  · rintro ⟨cost, h⟩
    have := total_of_accumulatePathCost h
    have := cost.total.lt
    exact ⟨(accumulatePathCost_eq_some_iff.mp h).1, by omega⟩
  · rintro ⟨hl, hlt⟩
    have he := @exactCost_eq hops model
    refine ⟨⟨⟨model.hopCost.value * hops.length, by omega⟩,
      ⟨(hops.map (·.staticCost.value)).sum, by omega⟩,
      ⟨model.degradedPenalty.value * hops.countP (·.degraded), by omega⟩,
      ⟨model.localityPenalty.value * hops.countP (·.outsideLocality), by omega⟩,
      ⟨exactCost model hops, hlt⟩, .ofNat hops.length, hops.countP (·.degraded),
      hops.countP (·.outsideLocality)⟩, ?_⟩
    exact accumulatePathCost_eq_some_iff.mpr ⟨hl, rfl, rfl, rfl, rfl, rfl, rfl, rfl, rfl⟩

end Costs

/-! ## Candidates -/

/-- `CandidateProvenance`. -/
structure CandidateProvenance where
  planningGeneration : PlanningGeneration := default
  constraintSet : ConstraintSetId := default
  constraintGeneration : ConstraintGeneration := default
  policyGeneration : PolicyGeneration := default
  evidenceSource : EvidenceSource := .synthetic
  planningRuleVersion : ℕ := 0
  pathEncodingVersion : ℕ := 0

/-- `Candidate`. -/
structure Candidate where
  id : CandidatePathId
  path : CandidatePath
  cost : PathCost
  rank : CandidateRank := default
  evidence : EvidenceVector := {}
  provenance : CandidateProvenance := {}
  authority : AuthorityValidation := .notRequested
  currentness : Currentness := .current
  notes : List DiagnosticCode := []

/-! ## Ranking -/

/-- The comparison loop of two sequences: the first difference decides, then the lengths. -/
def compareSequences {α : Type} [LinearOrder α] : List α → List α → Ordering
  | [], [] => .eq
  | [], _ :: _ => .lt
  | _ :: _, [] => .gt
  | a :: as, b :: bs =>
    if a ≠ b then (if a < b then .lt else .gt) else compareSequences as bs

section Sequences

variable {α : Type} [LinearOrder α] {as bs : List α}

theorem compareSequences_eq_lt_iff : compareSequences as bs = .lt ↔ as < bs := by
  induction as generalizing bs with
  | nil => cases bs <;> simp [compareSequences]
  | cons a as ih =>
    cases bs with
    | nil => simp [compareSequences]
    | cons b bs =>
      unfold compareSequences
      rw [List.cons_lt_cons_iff]
      split_ifs with hne hlt
      · simp [hlt]
      · simp [hlt, hne]
      · rw [not_not] at hne
        simp [hne, ih]

theorem compareSequences_eq_eq_iff : compareSequences as bs = .eq ↔ as = bs := by
  induction as generalizing bs with
  | nil => cases bs <;> simp [compareSequences]
  | cons a as ih =>
    cases bs with
    | nil => simp [compareSequences]
    | cons b bs =>
      unfold compareSequences
      rw [List.cons.injEq]
      split_ifs with hne hlt
      · simp [hne]
      · simp [hne]
      · rw [not_not] at hne
        simp [hne, ih]

end Sequences

/-- `CompareCanonicalPaths`: the node identities, then the link identities. -/
def compareCanonicalPaths (lhs rhs : CandidatePath) : Ordering :=
  match compareSequences lhs.nodes rhs.nodes with
  | .eq => compareSequences (lhs.hops.map (·.link)) (rhs.hops.map (·.link))
  | decided => decided

/-- `RanksBefore`. -/
def ranksBefore (lhs rhs : Candidate) : Bool :=
  if lhs.cost.total ≠ rhs.cost.total then lhs.cost.total < rhs.cost.total
  else if lhs.cost.hops ≠ rhs.cost.hops then lhs.cost.hops < rhs.cost.hops
  else compareCanonicalPaths lhs.path rhs.path == .lt

/-- What a candidate is ranked by. -/
def Candidate.rankingKey (c : Candidate) : CostValue ×ₗ HopCount ×ₗ List NodeId ×ₗ List LinkId :=
  toLex (c.cost.total, toLex (c.cost.hops, toLex (c.path.nodes, c.path.hops.map (·.link))))

theorem compareCanonicalPaths_eq_lt_iff {lhs rhs : CandidatePath} :
    compareCanonicalPaths lhs rhs = .lt ↔
      toLex (lhs.nodes, lhs.hops.map (·.link)) < toLex (rhs.nodes, rhs.hops.map (·.link)) := by
  unfold compareCanonicalPaths
  rw [Prod.Lex.toLex_lt_toLex, ← compareSequences_eq_lt_iff, ← compareSequences_eq_eq_iff,
    ← compareSequences_eq_lt_iff]
  cases compareSequences lhs.nodes rhs.nodes <;> simp

/-- **Ranking** is the lexicographic order of the ranking keys. -/
theorem ranksBefore_iff {lhs rhs : Candidate} :
    ranksBefore lhs rhs = true ↔ lhs.rankingKey < rhs.rankingKey := by
  unfold ranksBefore Candidate.rankingKey
  rw [Prod.Lex.toLex_lt_toLex]
  split_ifs with ht hh
  · simp [ht]
  · rw [not_not] at ht
    simp [ht, hh, Prod.Lex.toLex_lt_toLex]
  · rw [not_not] at ht hh
    rw [beq_iff_eq, compareCanonicalPaths_eq_lt_iff]
    simp only [ht, hh, lt_irrefl, true_and, false_or]
    simp [Prod.Lex.toLex_lt_toLex]

end PathPlanner
