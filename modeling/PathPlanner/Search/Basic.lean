import PathPlanner.View.PlanningView

/-!
# Search state

What the searches over a planning view share: the deterministic work budget, the set of excluded
nodes and entries, the queue and the outcome.

## Main definitions

* `WorkBudget`, `PlannerStatistics`, `Work`: the budget with the counters it is spent against
* `BanSet`: nodes and adjacency entries excluded from one search
* `RawPath`, `SearchOutcome`: paths and results in view coordinates
* `PriorityQueue`: the queue, which carries its order
* `PlanningView.searchGraph`: the multigraph that a search with bans explores

## Main results

* `BanSet.nodeBanned_iff`, `BanSet.adjacencyBanned_iff`: a ban test is membership
* `PriorityQueue.mem_push`, `PriorityQueue.pop_spec`: the queue holds what was pushed and yields a
  least entry
-/

namespace PathPlanner

open SortedList

/-- `kNoHopBound`. -/
def noHopBound : ℕ := 0xFFFFFFFF

/-- `kInfiniteHops`. -/
def infiniteHops : ℕ := 0xFFFFFFFF

/-- A hop count within a hop budget. -/
def WithinHops (hopBudget hops : ℕ) : Prop := hopBudget = noHopBound ∨ hops ≤ hopBudget

instance (hopBudget hops : ℕ) : Decidable (WithinHops hopBudget hops) :=
  inferInstanceAs (Decidable (_ ∨ _))

/-! ## Work -/

/-- `WorkBudget`. -/
structure WorkBudget where
  statesRemaining : ℕ := 0
  pushesRemaining : ℕ := 0
  spurRemaining : ℕ := 0
  exhausted : Bool := false
  stateSpaceExceeded : Bool := false

/-- `PlannerStatistics`. -/
structure PlannerStatistics where
  plansComputed : ℕ := 0
  plansPublished : ℕ := 0
  plansPublishRejectedStale : ℕ := 0
  candidatesReturned : ℕ := 0
  statesExpanded : ℕ := 0
  queuePushes : ℕ := 0
  spurSearches : ℕ := 0
  snapshotsPublished : ℕ := 0
  epochsAdvanced : ℕ := 0
  invalidationsApplied : ℕ := 0
  plansRetired : ℕ := 0

/-- The budget and the statistics a `Searcher` refers to. -/
structure Work where
  budget : WorkBudget
  stats : PlannerStatistics

namespace Work

/-- `Searcher::SpendState`; an error is a budget that is exhausted. -/
def spendState (work : Work) : Except Work Work :=
  if work.budget.statesRemaining = 0 then
    .error { work with budget := { work.budget with exhausted := true } }
  else .ok {
    budget := { work.budget with statesRemaining := work.budget.statesRemaining - 1 }
    stats := { work.stats with statesExpanded := work.stats.statesExpanded + 1 } }

/-- `Searcher::SpendPush`. -/
def spendPush (work : Work) : Except Work Work :=
  if work.budget.pushesRemaining = 0 then
    .error { work with budget := { work.budget with exhausted := true } }
  else .ok {
    budget := { work.budget with pushesRemaining := work.budget.pushesRemaining - 1 }
    stats := { work.stats with queuePushes := work.stats.queuePushes + 1 } }

variable {work work' : Work}

/-- Spending a state leaves the pushes alone. -/
theorem pushes_of_spendState (h : work.spendState = .ok work') :
    work'.budget.pushesRemaining = work.budget.pushesRemaining := by
  unfold spendState at h
  split_ifs at h
  cases h
  rfl

/-- Spending a push leaves one push less. -/
theorem pushes_of_spendPush (h : work.spendPush = .ok work') :
    work'.budget.pushesRemaining + 1 = work.budget.pushesRemaining := by
  unfold spendPush at h
  split_ifs at h
  cases h
  exact Nat.succ_pred_eq_of_ne_zero ‹_›

end Work

/-! ## Bans -/

/-- `BanSet`. -/
structure BanSet where
  nodes : List ℕ := []
  adjacency : List ℕ := []

namespace BanSet

/-- `BanSet::AddNode`. -/
def addNode (bans : BanSet) (node : ℕ) : BanSet := { bans with nodes := bans.nodes ++ [node] }

/-- `BanSet::AddAdjacency`. -/
def addAdjacency (bans : BanSet) (k : ℕ) : BanSet := { bans with adjacency := bans.adjacency ++ [k] }

/-- `BanSet::NodeBanned`, by binary search in the normalized list. -/
def nodeBanned (bans : BanSet) (node : ℕ) : Bool := binarySearch (unique (sortBy id bans.nodes)) node

/-- `BanSet::AdjacencyBanned`. -/
def adjacencyBanned (bans : BanSet) (k : ℕ) : Bool :=
  binarySearch (unique (sortBy id bans.adjacency)) k

theorem binarySearch_normalized {xs : List ℕ} {x : ℕ} :
    binarySearch (unique (sortBy id xs)) x = true ↔ x ∈ xs := by
  have hs := pairwise_sortBy id xs
  rw [binarySearch_iff (hs.sublist (unique_sublist _)), mem_unique hs, mem_sortBy]

@[simp] theorem nodeBanned_iff {bans : BanSet} {node : ℕ} :
    bans.nodeBanned node = true ↔ node ∈ bans.nodes := binarySearch_normalized

@[simp] theorem adjacencyBanned_iff {bans : BanSet} {k : ℕ} :
    bans.adjacencyBanned k = true ↔ k ∈ bans.adjacency := binarySearch_normalized

end BanSet

namespace PlanningView

variable (view : PlanningView)

/-- Whether a search with bans may traverse an entry. -/
def allowed (bans : BanSet) (k : ℕ) : Bool :=
  !bans.adjacencyBanned k && !bans.nodeBanned (view.adjacencyAt k).target

/-- The multigraph a search with bans explores. -/
def searchGraph (bans : BanSet) : Multigraph ℕ ℕ := view.graph.restrict (view.allowed bans)

variable {view} {bans : BanSet} {k : ℕ}

theorem allowed_iff : view.allowed bans k = true ↔
    k ∉ bans.adjacency ∧ (view.adjacencyAt k).target ∉ bans.nodes := by
  simp [allowed, ← Bool.not_eq_true]

theorem allowed_of_not (ha : ¬ bans.adjacencyBanned k = true)
    (hn : ¬ bans.nodeBanned (view.adjacencyAt k).target = true) : view.allowed bans k = true := by
  simp [allowed, ha, hn]

theorem isWalk_searchGraph {u : ℕ} {path : List ℕ} : (view.searchGraph bans).IsWalk u path ↔
    view.graph.IsWalk u path ∧
      ∀ k ∈ path, k ∉ bans.adjacency ∧ (view.adjacencyAt k).target ∉ bans.nodes := by
  simp only [searchGraph, Multigraph.isWalk_restrict, allowed_iff]

@[simp] theorem searchGraph_target : (view.searchGraph bans).target = view.graph.target := rfl

@[simp] theorem searchGraph_finish {u : ℕ} {path : List ℕ} :
    (view.searchGraph bans).finish u path = view.graph.finish u path :=
  Multigraph.restrict_finish

theorem searchGraph_out {u : ℕ} :
    (view.searchGraph bans).out u = (view.adjacencyRange u).filter (view.allowed bans) := rfl

theorem mem_searchGraph_out {u : ℕ} : k ∈ (view.searchGraph bans).out u ↔
    k ∈ view.adjacencyRange u ∧ view.allowed bans k = true :=
  Multigraph.mem_restrict_out

end PlanningView

/-! ## Paths and outcomes -/

/-- `RawPath`: view node indices and adjacency entry indices. -/
structure RawPath where
  nodes : List ℕ := []
  adjacency : List ℕ := []
  deriving DecidableEq

/-- `RawPath::HopCount`. -/
def RawPath.hopCount (path : RawPath) : ℕ := path.adjacency.length

/-- `SearchOutcome`. -/
structure SearchOutcome where
  found : Bool := false
  resourceLimit : Bool := false
  costOverflow : Bool := false
  path : RawPath := {}

/-- The raw path along a list of entries. -/
def PlanningView.rawPath (view : PlanningView) (u : ℕ) (path : List ℕ) : RawPath where
  nodes := view.graph.nodes u path
  adjacency := path

/-- `BetterLabel`. -/
def betterLabel (cost : CostValue) (hops : ℕ) (otherCost : CostValue) (otherHops : ℕ) : Bool :=
  if cost ≠ otherCost then cost < otherCost else hops < otherHops

/-- A label as a pair in lexicographic order. -/
def label (cost : CostValue) (hops : ℕ) : ℕ ×ₗ ℕ := toLex (cost.value, hops)

theorem betterLabel_iff {cost otherCost : CostValue} {hops otherHops : ℕ} :
    betterLabel cost hops otherCost otherHops = true ↔ label cost hops < label otherCost otherHops := by
  rw [label, label, Prod.Lex.toLex_lt_toLex, betterLabel]
  split_ifs with h
  · rw [decide_eq_true_eq, StrongUInt.lt_iff]
    rw [ne_eq, StrongUInt.ext_iff] at h
    simp [h]
  · rw [not_not] at h
    simp [h]

/-! ## The queue -/

/-- `QueueEntry`. -/
structure QueueEntry where
  cost : CostValue
  hops : ℕ
  state : ℕ

/-- The order of `QueueGreater`: cost, hops, state. -/
def QueueEntry.key (entry : QueueEntry) : CostValue ×ₗ ℕ ×ₗ ℕ :=
  toLex (entry.cost, toLex (entry.hops, entry.state))

/-- The priority queue: its entries, a least one first. -/
structure PriorityQueue where
  entries : List QueueEntry
  sorted : entries.Pairwise (·.key ≤ ·.key)

namespace PriorityQueue

instance : IsTrans QueueEntry (fun a b => a.key ≤ b.key) := ⟨fun _ _ _ => le_trans⟩

instance : Std.Total (fun a b : QueueEntry => a.key ≤ b.key) := ⟨fun a b => le_total a.key b.key⟩

/-- The queue without entries. -/
def empty : PriorityQueue := ⟨[], List.Pairwise.nil⟩

/-- `push`. -/
def push (queue : PriorityQueue) (entry : QueueEntry) : PriorityQueue where
  entries := queue.entries.orderedInsert (fun a b => a.key ≤ b.key) entry
  sorted := queue.sorted.orderedInsert entry queue.entries

/-- `top` and `pop`: a least entry, and the queue without it. -/
def pop (queue : PriorityQueue) : Option (QueueEntry × PriorityQueue) :=
  match h : queue.entries with
  | [] => none
  | entry :: entries => some (entry, ⟨entries, (h ▸ queue.sorted).tail⟩)

/-- The number of entries. -/
def size (queue : PriorityQueue) : ℕ := queue.entries.length

variable {queue rest : PriorityQueue} {entry : QueueEntry}

@[simp] theorem mem_push {e : QueueEntry} :
    e ∈ (queue.push entry).entries ↔ e = entry ∨ e ∈ queue.entries :=
  List.mem_orderedInsert _

@[simp] theorem size_push : (queue.push entry).size = queue.size + 1 :=
  List.orderedInsert_length _ _ _

theorem pop_eq_none_iff : queue.pop = none ↔ queue.entries = [] := by
  unfold pop
  split <;> simp_all

/-- The entry popped is least, and the rest of the queue stays. -/
theorem pop_spec (h : queue.pop = some (entry, rest)) :
    queue.entries = entry :: rest.entries ∧ ∀ e ∈ rest.entries, entry.key ≤ e.key := by
  unfold pop at h
  split at h
  · cases h
  · next e es he =>
    cases h
    refine ⟨he, ?_⟩
    have hs := queue.sorted
    rw [he] at hs
    exact (List.pairwise_cons.mp hs).1

theorem size_of_pop (h : queue.pop = some (entry, rest)) : queue.size = rest.size + 1 := by
  rw [size, (pop_spec h).1]
  rfl

end PriorityQueue

end PathPlanner
