import PathPlanner.Library.LabelSetting
import PathPlanner.Search.Walk

/-!
# Search over hop counts and nodes

`ExpandedSearch` labels pairs of a hop count and a node with the least cost of a path of exactly
that many hops, which is exact under any hop bound. The destination's best label is the least cost
over all hop counts within the bound, at the least hop count that has it.

## Main definitions

* `ExpandedState`, `expandedRelax`, `expandedLoop`: the label-setting loop
* `expandedBest`: the best label of the destination
* `expandedCanReach`, `expandedSearch`: reconstruction and the whole search

## Main results

* `Expanded.expandedLoop_isLabelling`: when the loop is not cut off by the budget, its labels are
  closed
* `Expanded.isLayering`: they certify the optimum among the paths within the bound
* `expandedSearch_spec`: the search finds the canonical path
-/

namespace PathPlanner

open Multigraph

variable (view : PlanningView) (hopBudget : ℕ) (bans : BanSet)

/-! ## The loop -/

/-- The local state of `ExpandedSearch`; a state is a hop count with a node. -/
structure ExpandedState where
  dist : ℕ × ℕ → CostValue
  settled : ℕ × ℕ → Bool
  queue : PriorityQueue
  costOverflow : Bool
  work : Work

/-- One iteration over the entries of the node of `entry`; an error is an exhausted budget. -/
def expandedRelax (entry : QueueEntry) (st : ExpandedState) (k : ℕ) :
    Except ExpandedState ExpandedState :=
  let candidate := view.adjacencyAt k
  if bans.adjacencyBanned k then .ok st
  else if bans.nodeBanned candidate.target then .ok st
  else
    match view.hopIncrement candidate with
    | none => .ok { st with costOverflow := true }
    | some increment =>
      match checkedAdd entry.cost increment with
      | none => .ok { st with costOverflow := true }
      | some nextCost =>
        match st.work.spendState with
        | .error work => .error { st with work }
        | .ok work =>
          let next := (entry.hops + 1, candidate.target)
          if st.dist next ≤ nextCost then .ok { st with work }
          else
            let st := { st with
              dist := Function.update st.dist next nextCost
              queue := st.queue.push ⟨nextCost, entry.hops + 1, candidate.target⟩ }
            match work.spendPush with
            | .error work => .error { st with work }
            | .ok work => .ok { st with work }

/-- The loop over the queue, for at most `fuel` entries. -/
def expandedLoop : ℕ → ExpandedState → Except ExpandedState ExpandedState
  | 0, st => .ok st
  | fuel + 1, st =>
    match st.queue.pop with
    | none => .ok st
    | some (entry, queue) =>
      let st := { st with queue }
      let state := (entry.hops, entry.state)
      if st.settled state then expandedLoop fuel st
      else if st.dist state ≠ entry.cost then expandedLoop fuel st
      else
        let st := { st with settled := Function.update st.settled state true }
        if entry.hops = hopBudget then expandedLoop fuel st
        else
          match (view.adjacencyRange entry.state).foldlM (expandedRelax view bans entry) st with
          | .error st => .error st
          | .ok st => expandedLoop fuel st

/-- The state before the first push is paid for. -/
def expandedStart (source : ℕ) (work : Work) : ExpandedState where
  dist := Function.update (fun _ => StrongUInt.max) (0, source) (.ofNat 0)
  settled := fun _ => false
  queue := PriorityQueue.empty.push ⟨.ofNat 0, 0, source⟩
  costOverflow := false
  work := work

/-! ## Reconstruction -/

/-- The scan for the best label of the destination: its cost and its hop count. -/
def expandedBest (dist : ℕ × ℕ → CostValue) (dest : ℕ) : CostValue × ℕ :=
  (List.range (hopBudget + 1)).foldl (fun best hops =>
    let value := dist (hops, dest)
    if value = StrongUInt.max then best
    else if value < best.1 ∨ value = best.1 ∧ hops < best.2 then (value, hops)
    else best) (StrongUInt.max, infiniteHops)

/-- Whether an entry of `node` may be followed: not banned, towards the destination, at the cost of
the label. -/
def expandedStep (dist : ℕ × ℕ → CostValue) (reach : ℕ × ℕ → Bool) (hops node k : ℕ) : Bool :=
  let next := (hops + 1, (view.adjacencyAt k).target)
  view.allowed bans k && reach next && carriesCost view k (dist (hops, node)) (dist next)

/-- `can_reach` after `levels` of the backward levels, from the best hop count down. -/
def expandedCanReach (dist : ℕ × ℕ → CostValue) (dest bestHops : ℕ) : ℕ → ℕ × ℕ → Bool
  | 0, state => state = (bestHops, dest)
  | levels + 1, state =>
    let reach := expandedCanReach dist dest bestHops levels
    if state.2 < view.nodeCount ∧ state.1 + (levels + 1) = bestHops ∧
        dist state ≠ StrongUInt.max then
      (view.adjacencyRange state.2).any (expandedStep view bans dist reach state.1 state.2)
    else reach state

/-- What `ExpandedSearch` does once the queue is empty. -/
def expandedReconstruct (source dest : ℕ) (st : ExpandedState) : SearchOutcome :=
  let outcome : SearchOutcome := { costOverflow := st.costOverflow }
  let bestHops := (expandedBest hopBudget st.dist dest).2
  if bestHops = infiniteHops then outcome
  else
    let reach := expandedCanReach view bans st.dist dest bestHops bestHops
    match reconstruct view (fun hops current => decide (current = dest ∧ hops = bestHops))
        (expandedStep view bans st.dist reach) bestHops 0 source ⟨[source], []⟩ with
    | none => outcome
    | some path => { outcome with found := true, path }

/-- `Searcher::ExpandedSearch`. -/
def expandedSearch (source dest : ℕ) (work : Work) : SearchOutcome × Work :=
  if (hopBudget + 1) * view.nodeCount > view.limits.maxSearchStates.toNat then
    ({ resourceLimit := true },
      { work with budget := { work.budget with stateSpaceExceeded := true } })
  else
    match work.spendPush with
    | .error work => ({ resourceLimit := true }, work)
    | .ok work =>
      match expandedLoop view hopBudget bans (work.budget.pushesRemaining + 1)
          { expandedStart source work with work } with
      | .error st => ({ resourceLimit := true, costOverflow := st.costOverflow }, st.work)
      | .ok st => (expandedReconstruct view hopBudget bans source dest st, st.work)

/-! ## Labels -/

namespace Expanded

/-- The relaxations of `ExpandedSearch`, as a label-setting problem. -/
def system (source : ℕ) : LabelSetting (ℕ × ℕ) ℕ ℕ where
  out s := if s.1 = hopBudget then [] else (view.searchGraph bans).out s.2
  relax s k cost :=
    if cost + view.exactIncrement k < 2 ^ 64 then
      some ((s.1 + 1, view.graph.target k), cost + view.exactIncrement k)
    else none
  start := (0, source)
  init := 0
  top := 2 ^ 64 - 1
  init_le := Nat.zero_le
  le_of_relax := by
    intro s k l t l' h
    split_ifs at h
    obtain ⟨-, rfl⟩ := Prod.mk.inj (Option.some.inj h)
    exact Nat.le_add_right _ _

variable {view hopBudget bans} {source dest : ℕ} {entry : QueueEntry} {st st' : ExpandedState}
  {k : ℕ}

theorem relax_eq_some_iff {s t : ℕ × ℕ} {c c' : ℕ} :
    (system view hopBudget bans source).relax s k c = some (t, c') ↔
      c + view.exactIncrement k < 2 ^ 64 ∧ t = (s.1 + 1, view.graph.target k) ∧
        c' = c + view.exactIncrement k := by
  unfold system
  dsimp only
  split_ifs with hc
  · rw [Option.some_inj, Prod.mk.injEq]
    exact ⟨fun ⟨ht, hc'⟩ => ⟨hc, ht.symm, hc'.symm⟩, fun ⟨_, ht, hc'⟩ => ⟨ht.symm, hc'.symm⟩⟩
  · exact iff_of_false (by simp) fun h => hc h.1

/-- The label of a state. -/
def labels (st : ExpandedState) (s : ℕ × ℕ) : ℕ := (st.dist s).value

/-- The labelled entries of the queue. -/
def queued (st : ExpandedState) : Set (ℕ × (ℕ × ℕ)) :=
  {e | ∃ entry ∈ st.queue.entries, e = (entry.cost.value, (entry.hops, entry.state))}

variable (view hopBudget bans) in
/-- The invariant of the loop, while the entries `rest` of `cur` wait. -/
def Invariant (source : ℕ) (st : ExpandedState) (level : ℕ) (cur : ℕ × ℕ) (rest : List ℕ) : Prop :=
  (system view hopBudget bans source).Invariant (labels st) (fun s => st.settled s = true)
    (queued st) level cur (rest.filter (view.allowed bans))

/-- The state but for the overflow flag and the states spent. -/
structure SameLabels (st st' : ExpandedState) : Prop where
  dist : st'.dist = st.dist
  settled : st'.settled = st.settled
  queue : st'.queue = st.queue
  pushes : st'.work.budget.pushesRemaining = st.work.budget.pushesRemaining

/-- The label of `next` improved to `newCost`, was queued, and a push was paid. -/
structure Improves (st st' : ExpandedState) (next : ℕ × ℕ) (newCost : CostValue) : Prop where
  dist : st'.dist = Function.update st.dist next newCost
  settled : st'.settled = st.settled
  queue : st'.queue = st.queue.push ⟨newCost, next.1, next.2⟩
  pushes : st'.work.budget.pushesRemaining + 1 = st.work.budget.pushesRemaining

variable (hopBudget source) in
/-- **What one iteration over the entries does**: the labels stay, and the relaxation of an allowed
entry would not improve them; or the relaxation of an allowed entry improves a label. -/
theorem expandedRelax_ok (hd : st.dist (entry.hops, entry.state) = entry.cost)
    (h : expandedRelax view bans entry st k = .ok st') :
    (SameLabels st st' ∧ (view.allowed bans k = true → ∀ t l,
      (system view hopBudget bans source).relax (entry.hops, entry.state) k
        (labels st (entry.hops, entry.state)) = some (t, l) → labels st t ≤ l)) ∨
    ∃ cost : CostValue, view.allowed bans k = true ∧
      (system view hopBudget bans source).relax (entry.hops, entry.state) k
        (labels st (entry.hops, entry.state)) =
          some ((entry.hops + 1, view.graph.target k), cost.value) ∧
      cost.value < labels st (entry.hops + 1, view.graph.target k) ∧
      Improves st st' (entry.hops + 1, view.graph.target k) cost := by
  have hlab : labels st (entry.hops, entry.state) = entry.cost.value := by rw [labels, hd]
  -- an entry whose relaxation yields nothing leaves the labels alone
  have hnone : ∀ st' : ExpandedState, SameLabels st st' → (view.allowed bans k = true →
      2 ^ 64 ≤ entry.cost.value + view.exactIncrement k) →
      SameLabels st st' ∧ (view.allowed bans k = true → ∀ t l,
        (system view hopBudget bans source).relax (entry.hops, entry.state) k
          (labels st (entry.hops, entry.state)) = some (t, l) → labels st t ≤ l) := by
    refine fun st' hsame hno => ⟨hsame, fun hal t l hr => ?_⟩
    rw [hlab] at hr
    have hlt := (relax_eq_some_iff.mp hr).1
    have := hno hal
    omega
  unfold expandedRelax at h
  simp only at h
  split_ifs at h with hab hnb
  · obtain rfl := Except.ok.inj h
    refine Or.inl (hnone st ⟨rfl, rfl, rfl, rfl⟩ fun hal => ?_)
    simp [PlanningView.allowed, hab] at hal
  · obtain rfl := Except.ok.inj h
    refine Or.inl (hnone st ⟨rfl, rfl, rfl, rfl⟩ fun hal => ?_)
    simp [PlanningView.allowed, hnb] at hal
  · have hal : view.allowed bans k = true := PlanningView.allowed_of_not hab hnb
    split at h
    · next hi =>
      obtain rfl := Except.ok.inj h
      have := hopIncrement_eq_none_iff.mp hi
      exact Or.inl (hnone _ ⟨rfl, rfl, rfl, rfl⟩ fun _ => by omega)
    · next increment hi =>
      have hinc := hopIncrement_eq_some_iff.mp hi
      split at h
      · next hs =>
        obtain rfl := Except.ok.inj h
        have := checkedAdd_eq_none_iff.mp hs
        exact Or.inl (hnone _ ⟨rfl, rfl, rfl, rfl⟩ fun _ => by omega)
      · next nextCost hs =>
        have hsum := checkedAdd_eq_some_iff.mp hs
        have hlt := nextCost.lt
        have hrel : (system view hopBudget bans source).relax (entry.hops, entry.state) k
            (labels st (entry.hops, entry.state)) =
              some ((entry.hops + 1, view.graph.target k), nextCost.value) := by
          rw [hlab]
          exact relax_eq_some_iff.mpr ⟨by omega, rfl, by omega⟩
        split at h
        · cases h
        · next work hw =>
          have hpush := Work.pushes_of_spendState hw
          split_ifs at h with hbetter
          · obtain rfl := Except.ok.inj h
            refine Or.inl ⟨⟨rfl, rfl, rfl, hpush⟩, fun _ t l hr => ?_⟩
            obtain ⟨rfl, rfl⟩ := Prod.mk.inj (Option.some.inj (hrel.symm.trans hr))
            exact hbetter
          · split at h
            · cases h
            · next work' hw' =>
              obtain rfl := Except.ok.inj h
              exact Or.inr ⟨nextCost, hal, hrel, not_le.mp hbetter,
                ⟨rfl, rfl, rfl, (Work.pushes_of_spendPush hw').trans hpush⟩⟩

theorem SameLabels.labels_eq (h : SameLabels st st') : labels st' = labels st := by
  funext s
  rw [labels, labels, h.dist]

theorem SameLabels.queued_eq (h : SameLabels st st') : queued st' = queued st := by
  rw [queued, queued, h.queue]

theorem Improves.labels_eq {next : ℕ × ℕ} {newCost : CostValue} (h : Improves st st' next newCost) :
    labels st' = Function.update (labels st) next newCost.value := by
  funext s
  rw [labels, h.dist]
  by_cases hs : s = next
  · subst hs
    simp
  · simp [hs, labels]

theorem Improves.queued_eq {next : ℕ × ℕ} {newCost : CostValue} (h : Improves st st' next newCost) :
    queued st' = insert (newCost.value, next) (queued st) := by
  ext e
  simp only [queued, h.queue, PriorityQueue.mem_push, Set.mem_ofPred_eq, Set.mem_insert_iff]
  constructor
  · rintro ⟨entry, rfl | hm, rfl⟩
    · exact Or.inl rfl
    · exact Or.inr ⟨entry, hm, rfl⟩
  · rintro (rfl | ⟨entry, hm, rfl⟩)
    · exact ⟨_, Or.inl rfl, rfl⟩
    · exact ⟨entry, Or.inr hm, rfl⟩

variable (view hopBudget bans) in
/-- What holds while the entries `rest` of the node of `entry` wait: its state is settled with the
label of the entry, within the hop bound. -/
structure Scanning (source : ℕ) (entry : QueueEntry) (st : ExpandedState) (rest : List ℕ) :
    Prop where
  inv : Invariant view hopBudget bans source st entry.cost.value (entry.hops, entry.state) rest
  settled : st.settled (entry.hops, entry.state) = true
  dist : st.dist (entry.hops, entry.state) = entry.cost
  hops : entry.hops ≠ hopBudget

/-- The queue and the pushes left, which every round of the loop diminishes. -/
def remaining (st : ExpandedState) : ℕ := st.queue.size + st.work.budget.pushesRemaining

/-- **One iteration** keeps the invariant, and pays for what it pushes. -/
theorem Scanning.relax {rest : List ℕ}
    (sc : Scanning view hopBudget bans source entry st (k :: rest))
    (hk : k ∈ view.adjacencyRange entry.state) (h : expandedRelax view bans entry st k = .ok st') :
    Scanning view hopBudget bans source entry st' rest ∧ remaining st' = remaining st := by
  have hlab : labels st (entry.hops, entry.state) = entry.cost.value := by rw [labels, sc.dist]
  have hinv := sc.inv
  rcases expandedRelax_ok hopBudget source sc.dist h with
    ⟨hsame, hskip⟩ | ⟨cost, hal, hr, hlt, himp⟩
  · refine ⟨⟨?_, by rw [hsame.settled, sc.settled], by rw [hsame.dist, sc.dist], sc.hops⟩,
      by rw [remaining, remaining, hsame.queue, hsame.pushes]⟩
    rw [Invariant, hsame.labels_eq, hsame.queued_eq, hsame.settled]
    rw [Invariant, List.filter_cons] at hinv
    split_ifs at hinv with hal
    · exact hinv.skip (hskip hal)
    · exact hinv
  · rw [Invariant, List.filter_cons_of_pos hal] at hinv
    have hout : k ∈ (system view hopBudget bans source).out (entry.hops, entry.state) := by
      simp only [system, if_neg sc.hops]
      exact PlanningView.mem_searchGraph_out.mpr ⟨hk, hal⟩
    have hnext := hinv.improve sc.settled hlab hout hr hlt
    have hne : ((entry.hops, entry.state) : ℕ × ℕ) ≠ (entry.hops + 1, view.graph.target k) :=
      fun he => absurd (Prod.mk.inj he).1 (Nat.succ_ne_self _).symm
    refine ⟨⟨?_, by rw [himp.settled, sc.settled], ?_, sc.hops⟩, ?_⟩
    · rw [Invariant, himp.labels_eq, himp.queued_eq, himp.settled]
      exact hnext
    · rw [himp.dist, Function.update_of_ne hne, sc.dist]
    · have := himp.pushes
      rw [remaining, remaining, himp.queue, PriorityQueue.size_push]
      omega

/-- The whole scan of a node keeps the invariant. -/
theorem Scanning.fold {rest : List ℕ} (sc : Scanning view hopBudget bans source entry st rest)
    (hrest : ∀ k ∈ rest, k ∈ view.adjacencyRange entry.state)
    (h : rest.foldlM (expandedRelax view bans entry) st = .ok st') :
    Scanning view hopBudget bans source entry st' [] ∧ remaining st' = remaining st := by
  induction rest generalizing st with
  | nil =>
    obtain rfl := Except.ok.inj h
    exact ⟨sc, rfl⟩
  | cons k rest ih =>
    rw [List.foldlM_cons] at h
    cases hk : expandedRelax view bans entry st k with
    | error st₁ =>
      rw [hk] at h
      cases h
    | ok st₁ =>
      rw [hk] at h
      obtain ⟨sc₁, hr₁⟩ := sc.relax (hrest k List.mem_cons_self) hk
      obtain ⟨sc₂, hr₂⟩ := ih sc₁ (fun l hl => hrest l (List.mem_cons_of_mem _ hl)) h
      exact ⟨sc₂, hr₂.trans hr₁⟩

/-- Popping an entry takes its label off the queue. -/
theorem queued_of_pop {queue : PriorityQueue} (h : st.queue.pop = some (entry, queue)) :
    queued st =
      insert (entry.cost.value, (entry.hops, entry.state)) (queued { st with queue }) := by
  ext e
  simp only [queued, (PriorityQueue.pop_spec h).1, List.mem_cons, Set.mem_ofPred_eq,
    Set.mem_insert_iff]
  constructor
  · rintro ⟨e', rfl | hm, rfl⟩
    · exact Or.inl rfl
    · exact Or.inr ⟨e', hm, rfl⟩
  · rintro (rfl | ⟨e', hm, rfl⟩)
    · exact ⟨_, Or.inl rfl, rfl⟩
    · exact ⟨e', Or.inr hm, rfl⟩

theorem queued_eq_empty (h : st.queue.entries = []) : queued st = ∅ := by
  simp [queued, h]

/-- The entry popped has a least cost. -/
theorem cost_le_of_key_le {e e' : QueueEntry} (h : e.key ≤ e'.key) :
    e.cost.value ≤ e'.cost.value := by
  rw [QueueEntry.key, QueueEntry.key, Prod.Lex.toLex_le_toLex] at h
  rcases h with h | ⟨h, -⟩
  · exact le_of_lt h
  · exact (congrArg StrongUInt.value h).le

/-- Settling the state of a fresh entry leaves the arcs of the state to relax. -/
theorem invariant_settle {queue : PriorityQueue} {level : ℕ} {cur : ℕ × ℕ}
    (inv : Invariant view hopBudget bans source st level cur [])
    (hp : st.queue.pop = some (entry, queue))
    (hfresh : st.dist (entry.hops, entry.state) = entry.cost) :
    (system view hopBudget bans source).Invariant (labels st)
      (fun s => Function.update st.settled (entry.hops, entry.state) true s = true)
      (queued { st with queue }) entry.cost.value (entry.hops, entry.state)
      ((system view hopBudget bans source).out (entry.hops, entry.state)) := by
  rw [Invariant, queued_of_pop hp] at inv
  have hset : (fun s => Function.update st.settled (entry.hops, entry.state) true s = true) =
      fun s => st.settled s = true ∨ s = (entry.hops, entry.state) := by
    funext s
    by_cases hs : s = (entry.hops, entry.state) <;> simp [hs]
  rw [hset]
  refine inv.settle (congrArg StrongUInt.value hfresh) ?_
  rintro l s ⟨e, he, hls⟩
  obtain ⟨rfl, rfl⟩ := Prod.mk.inj hls
  exact cost_le_of_key_le ((PriorityQueue.pop_spec hp).2 e he)

/-- **The loop ends in a labelling** when the budget does not cut it off. -/
theorem expandedLoop_isLabelling {fuel level : ℕ} {cur : ℕ × ℕ}
    (inv : Invariant view hopBudget bans source st level cur [])
    (hfuel : remaining st ≤ fuel) (h : expandedLoop view hopBudget bans fuel st = .ok st') :
    (system view hopBudget bans source).IsLabelling (labels st') := by
  induction fuel generalizing st level cur with
  | zero =>
    obtain rfl := Except.ok.inj h
    refine LabelSetting.Invariant.isLabelling inv (queued_eq_empty (List.length_eq_zero_iff.mp ?_))
    exact Nat.le_zero.mp ((Nat.le_add_right _ _).trans hfuel)
  | succ fuel ih =>
    rw [expandedLoop] at h
    split at h
    · next hp =>
      obtain rfl := Except.ok.inj h
      exact LabelSetting.Invariant.isLabelling inv
        (queued_eq_empty (PriorityQueue.pop_eq_none_iff.mp hp))
    · next entry queue hp =>
      have hsize := PriorityQueue.size_of_pop hp
      have hrem : queue.size + st.work.budget.pushesRemaining ≤ fuel := by
        unfold remaining at hfuel
        omega
      have hinv := inv
      rw [Invariant, queued_of_pop hp] at hinv
      dsimp only at h
      split_ifs at h with hset hstale hbound
      · have hnext : Invariant view hopBudget bans source { st with queue } level cur [] :=
          hinv.stale (Or.inl hset)
        exact ih hnext hrem h
      · have hlt : labels st (entry.hops, entry.state) < entry.cost.value :=
          lt_of_le_of_ne (hinv.dist_le _ _ (Set.mem_insert _ _))
            fun he => hstale (StrongUInt.ext_iff.mpr he)
        have hnext : Invariant view hopBudget bans source { st with queue } level cur [] :=
          hinv.stale (Or.inr hlt)
        exact ih hnext hrem h
      · have hsettle := invariant_settle inv hp (not_not.mp hstale)
        simp only [system, if_pos hbound] at hsettle
        have hnext : Invariant view hopBudget bans source { st with
            queue, settled := Function.update st.settled (entry.hops, entry.state) true }
            entry.cost.value (entry.hops, entry.state) [] := hsettle
        exact ih hnext hrem h
      · split at h
        · cases h
        · next st₁ hscan =>
          have hsettle := invariant_settle inv hp (not_not.mp hstale)
          simp only [system, if_neg hbound] at hsettle
          have hstart : Scanning view hopBudget bans source entry { st with
              queue, settled := Function.update st.settled (entry.hops, entry.state) true }
              (view.adjacencyRange entry.state) :=
            ⟨hsettle, Function.update_self .., not_not.mp hstale, hbound⟩
          obtain ⟨hend, hrem₁⟩ := hstart.fold (fun _ hk => hk) hscan
          exact ih hend.inv (hrem₁.trans_le hrem) h

/-- The first state satisfies the invariant. -/
theorem invariant_start {work : Work} :
    Invariant view hopBudget bans source (expandedStart source work) 0 (0, source) [] := by
  have h := LabelSetting.Invariant.initial (R := system view hopBudget bans source)
    (show (0 : ℕ) < 2 ^ 64 - 1 by decide)
  have hl : labels (expandedStart source work) =
      Function.update (fun _ => (system view hopBudget bans source).top)
        (system view hopBudget bans source).start (system view hopBudget bans source).init := by
    funext s
    rw [labels]
    by_cases hs : s = (0, source) <;> simp [expandedStart, system, hs]
  have hq : queued (expandedStart source work) =
      {((system view hopBudget bans source).init, (system view hopBudget bans source).start)} := by
    ext e
    simp [queued, expandedStart, PriorityQueue.empty, system]
  have hs : (fun s => (expandedStart source work).settled s = true) = fun _ => False := by
    simp [expandedStart]
  rw [Invariant, hl, hq, hs]
  exact h

variable (view hopBudget bans source dest) in
/-- **A search that is not cut off** reconstructs from a labelling. -/
theorem expandedSearch_cases (work : Work) :
    (expandedSearch view hopBudget bans source dest work).1.resourceLimit = true ∨
    ∃ st, (system view hopBudget bans source).IsLabelling (labels st) ∧
      (expandedSearch view hopBudget bans source dest work).1 =
        expandedReconstruct view hopBudget bans source dest st := by
  unfold expandedSearch
  split_ifs with hstates
  · exact Or.inl rfl
  · split
    · exact Or.inl rfl
    · next work' hw =>
      split
      · exact Or.inl rfl
      · next st hst =>
        refine Or.inr ⟨st, ?_, rfl⟩
        refine expandedLoop_isLabelling invariant_start ?_ hst
        simp [remaining, expandedStart, PriorityQueue.size, PriorityQueue.push, PriorityQueue.empty]
        omega

/-! ## Optimality of the labels -/

section Labelling

variable {D : ℕ × ℕ → ℕ} (lab : (system view hopBudget bans source).IsLabelling D)

include lab

/-- A label of a later hop count extends one of the hop count before it by one entry. -/
theorem exists_predecessor {h t : ℕ} (hlt : D (h + 1, t) < 2 ^ 64 - 1) :
    ∃ s k, h ≠ hopBudget ∧ D (h, s) < 2 ^ 64 - 1 ∧ k ∈ (view.searchGraph bans).out s ∧
      view.graph.target k = t ∧ D (h + 1, t) = D (h, s) + view.exactIncrement k := by
  rcases lab.produced (h + 1, t) hlt with he | ⟨⟨i, s⟩, k, hs, hk, hr⟩
  · exact absurd (Prod.mk.inj he).1 (Nat.succ_ne_zero h)
  · obtain ⟨-, he, hc⟩ := relax_eq_some_iff.mp hr
    obtain ⟨hi, rfl⟩ := Prod.mk.inj he
    obtain rfl := Nat.succ.inj hi
    simp only [system] at hk
    split_ifs at hk with hb
    · cases hk
    · exact ⟨s, k, hb, hs, hk, rfl, hc⟩

/-- Only the source is labelled without a hop. -/
theorem eq_source_of_lt {t : ℕ} (hlt : D (0, t) < 2 ^ 64 - 1) : t = source := by
  rcases lab.produced (0, t) hlt with he | ⟨⟨i, s⟩, k, -, -, hr⟩
  · exact (Prod.mk.inj he).2
  · obtain ⟨-, he, -⟩ := relax_eq_some_iff.mp hr
    exact absurd (Prod.mk.inj he).1 (Nat.succ_ne_zero i).symm

/-- Labels lie within the hop bound, and every label is carried by a path of its hop count. -/
theorem exists_walk {h t : ℕ} (hlt : D (h, t) < 2 ^ 64 - 1) :
    h ≤ hopBudget ∧ ∃ es, (view.searchGraph bans).IsWalk source es ∧
      view.graph.finish source es = t ∧ view.pathWeight es = D (h, t) ∧ es.length = h := by
  induction h generalizing t with
  | zero =>
    obtain rfl := eq_source_of_lt lab hlt
    exact ⟨Nat.zero_le _, [], trivial, rfl, lab.start.symm, rfl⟩
  | succ h ih =>
    obtain ⟨s, k, hb, hs, hk, rfl, hd⟩ := exists_predecessor lab hlt
    obtain ⟨hle, es, hes, rfl, hc, hl⟩ := ih hs
    refine ⟨by omega, es ++ [k], ?_, ?_, ?_, ?_⟩
    · simpa [hes] using hk
    · simp
    · rw [hd, ← hc]
      simp [PlanningView.pathWeight]
    · simp [hl]

/-- **No path is better than the label** of its hop count at the node it leads to. -/
theorem le_of_walk {es : List ℕ} (hes : (view.searchGraph bans).IsWalk source es)
    (hl : es.length ≤ hopBudget) (hc : view.pathWeight es < 2 ^ 64 - 1) :
    D (es.length, view.graph.finish source es) ≤ view.pathWeight es := by
  induction es using List.reverseRecOn with
  | nil => exact lab.start.le
  | append_singleton es k ih =>
    simp only [PlanningView.pathWeight, weight_append, weight_cons, weight_nil, add_zero,
      isWalk_append, isWalk_cons, isWalk_nil, and_true, PlanningView.searchGraph_finish,
      List.length_append, List.length_cons, List.length_nil, zero_add, finish_append, finish_cons,
      finish_nil] at hes hc hl ⊢
    have hle := ih hes.1 (by omega) (by unfold PlanningView.pathWeight; omega)
    simp only [PlanningView.pathWeight] at hle
    have hout : k ∈ (system view hopBudget bans source).out
        (es.length, view.graph.finish source es) := by
      simp only [system, if_neg (show es.length ≠ hopBudget by omega)]
      exact hes.2
    have hcl := lab.closed _ k _ _ (show D _ < 2 ^ 64 - 1 by omega) hout
      (relax_eq_some_iff.mpr ⟨by omega, rfl, rfl⟩)
    exact hcl.trans (Nat.add_le_add_right hle _)

theorem lt_nodeCount (wf : view.WellFormed) (hsource : source < view.nodeCount) {h t : ℕ}
    (hlt : D (h, t) < 2 ^ 64 - 1) : t < view.nodeCount := by
  cases h with
  | zero => exact eq_source_of_lt lab hlt ▸ hsource
  | succ h =>
    obtain ⟨s, k, -, -, hk, rfl, -⟩ := exists_predecessor lab hlt
    exact wf.target_lt_of_mem_out (PlanningView.mem_searchGraph_out.mp hk).1

end Labelling

/-! ## The best label of the destination -/

/-- The least label among the hop counts below `n`, as the scan keeps it. -/
def IsBest (dist : ℕ × ℕ → CostValue) (dest n : ℕ) (best : CostValue × ℕ) : Prop :=
  best = (StrongUInt.max, infiniteHops) ∧ (∀ h < n, dist (h, dest) = StrongUInt.max) ∨
  ∃ h < n, best = (dist (h, dest), h) ∧ dist (h, dest) ≠ StrongUInt.max ∧
    ∀ i < n, dist (i, dest) ≠ StrongUInt.max →
      dist (h, dest) < dist (i, dest) ∨ dist (h, dest) = dist (i, dest) ∧ h ≤ i

variable (hopBudget) in
/-- **The scan keeps the least label** of the hop counts it has passed. -/
theorem expandedBest_spec (dist : ℕ × ℕ → CostValue) (dest : ℕ) :
    IsBest dist dest (hopBudget + 1) (expandedBest hopBudget dist dest) := by
  unfold expandedBest
  induction hopBudget + 1 with
  | zero => exact Or.inl ⟨rfl, fun h hh => absurd hh (Nat.not_lt_zero h)⟩
  | succ n ih =>
    rw [List.range_succ, List.foldl_append, List.foldl_cons, List.foldl_nil]
    dsimp only
    rcases ih with ⟨hbest, hall⟩ | ⟨h, hh, hbest, hmax, hleast⟩
    · rw [hbest]
      split_ifs with hm hlt
      · refine Or.inl ⟨rfl, fun h hh => ?_⟩
        rcases Nat.lt_succ_iff_lt_or_eq.mp hh with hh | rfl
        · exact hall h hh
        · exact hm
      · refine Or.inr ⟨n, Nat.lt_succ_self n, rfl, hm, fun i hi hne => ?_⟩
        rcases Nat.lt_succ_iff_lt_or_eq.mp hi with hi | rfl
        · exact absurd (hall i hi) hne
        · exact Or.inr ⟨rfl, le_rfl⟩
      · exact absurd (Or.inl (lt_of_le_of_ne (le_max _) hm)) hlt
    · rw [hbest]
      split_ifs with hm hlt
      · refine Or.inr ⟨h, hh.trans (Nat.lt_succ_self n), rfl, hmax, fun i hi hne => ?_⟩
        rcases Nat.lt_succ_iff_lt_or_eq.mp hi with hi | rfl
        · exact hleast i hi hne
        · exact absurd hm hne
      · have hlt : dist (n, dest) < dist (h, dest) := by
          rcases hlt with hlt | ⟨-, hlt⟩
          · exact hlt
          · exact absurd hlt (not_lt.mpr hh.le)
        refine Or.inr ⟨n, Nat.lt_succ_self n, rfl, hm, fun i hi hne => ?_⟩
        rcases Nat.lt_succ_iff_lt_or_eq.mp hi with hi | rfl
        · rcases hleast i hi hne with hle | ⟨he, -⟩
          · exact Or.inl (hlt.trans hle)
          · exact Or.inl (he ▸ hlt)
        · exact Or.inr ⟨rfl, le_rfl⟩
      · refine Or.inr ⟨h, hh.trans (Nat.lt_succ_self n), rfl, hmax, fun i hi hne => ?_⟩
        rcases Nat.lt_succ_iff_lt_or_eq.mp hi with hi | rfl
        · exact hleast i hi hne
        · rcases lt_trichotomy (dist (h, dest)) (dist (i, dest)) with hlt' | he | hgt
          · exact Or.inl hlt'
          · exact Or.inr ⟨he, hh.le⟩
          · exact absurd (Or.inl hgt) hlt

/-! ## Reconstruction from the labels -/

/-- The labels as layered costs. -/
def layers (st : ExpandedState) (hops u : ℕ) : Option ℕ :=
  if st.dist (hops, u) ≠ StrongUInt.max then some (labels st (hops, u)) else none

theorem layers_eq_some_iff {hops u c : ℕ} :
    layers st hops u = some c ↔ labels st (hops, u) = c ∧ c < 2 ^ 64 - 1 := by
  unfold layers labels
  split_ifs with h
  · rw [ne_max_iff] at h
    rw [Option.some_inj]
    exact ⟨fun hc => ⟨hc, hc ▸ h⟩, fun hc => hc.1⟩
  · rw [ne_max_iff] at h
    exact iff_of_false (by simp) fun hc => h (hc.1 ▸ hc.2)

theorem layers_ne_none_iff {hops u : ℕ} :
    layers st hops u ≠ none ↔ st.dist (hops, u) ≠ StrongUInt.max := by
  unfold layers
  split_ifs with h <;> simp [h]

variable {bestHops : ℕ}

/-- **The labels certify the optimum** among the paths within the hop bound. -/
theorem isLayering (lab : (system view hopBudget bans source).IsLabelling (labels st))
    (hle : bestHops ≤ hopBudget) (hmax : st.dist (bestHops, dest) ≠ StrongUInt.max)
    (hleast : ∀ i ≤ hopBudget, st.dist (i, dest) ≠ StrongUInt.max →
      st.dist (bestHops, dest) < st.dist (i, dest) ∨
        st.dist (bestHops, dest) = st.dist (i, dest) ∧ bestHops ≤ i) :
    (view.searchGraph bans).IsLayering view.exactIncrement (layers st) source dest hopBudget
      (2 ^ 64 - 1) (labels st (bestHops, dest)) bestHops where
  first := layers_eq_some_iff.mpr ⟨lab.start, by decide⟩
  only t c h := by
    obtain ⟨rfl, hc⟩ := layers_eq_some_iff.mp h
    exact eq_source_of_lt lab hc
  produced k t c h := by
    obtain ⟨rfl, hc⟩ := layers_eq_some_iff.mp h
    obtain ⟨s, e, -, hs, he, htar, hd⟩ := exists_predecessor lab hc
    exact ⟨s, e, _, layers_eq_some_iff.mpr ⟨rfl, hs⟩, he, htar, hd⟩
  optimum := layers_eq_some_iff.mpr ⟨rfl, ne_max_iff.mp hmax⟩
  least es hes hf hl hc := by
    have hw := le_of_walk lab hes hl hc
    rw [PlanningView.searchGraph_finish] at hf
    rw [hf] at hw
    rcases hleast es.length hl (ne_max_iff.mpr (hw.trans_lt hc)) with hlt | ⟨he, hlen⟩
    · exact Or.inl (lt_of_lt_of_le (StrongUInt.lt_iff.mp hlt) hw)
    · have he' : labels st (bestHops, dest) = labels st (es.length, dest) :=
        congrArg StrongUInt.value he
      rcases hw.lt_or_eq with hlt | heq
      · exact Or.inl (he'.trans_lt hlt)
      · exact Or.inr ⟨he'.trans heq, hlen⟩
  exact es hes hf hc hl i hi := by
    rw [PlanningView.searchGraph_finish] at hf ⊢
    have hcap : labels st (bestHops, dest) < 2 ^ 64 - 1 := ne_max_iff.mp hmax
    have hsplit : view.pathWeight (es.take i) + view.pathWeight (es.drop i) =
        labels st (bestHops, dest) := by
      rw [← hc, PlanningView.pathWeight, PlanningView.pathWeight, ← weight_append,
        List.take_append_drop]
    have htake : (es.take i).length = i := by simp [hl, hi]
    have hw := le_of_walk lab (hes.take i) (by omega) (by omega)
    rw [htake] at hw
    refine layers_eq_some_iff.mpr ⟨?_, by unfold PlanningView.pathWeight at hsplit; omega⟩
    refine hw.eq_of_not_lt fun hlt => ?_
    -- a better path to the node would give a better path to the destination
    obtain ⟨-, q, hq, hqf, hqc, hql⟩ :=
      exists_walk lab (show labels st (i, view.graph.finish source (es.take i)) < _ by omega)
    have hdrop := hes.drop i
    rw [PlanningView.searchGraph_finish, ← hqf] at hdrop
    have hwalk : (view.searchGraph bans).IsWalk source (q ++ es.drop i) := by
      rw [isWalk_append, PlanningView.searchGraph_finish]
      exact ⟨hq, hdrop⟩
    have hlen : (q ++ es.drop i).length = bestHops := by
      rw [List.length_append, List.length_drop]
      omega
    have hweight : view.pathWeight (q ++ es.drop i) =
        view.pathWeight q + view.pathWeight (es.drop i) := weight_append
    have hbest := le_of_walk lab hwalk (by omega) (by omega)
    rw [finish_append, hqf, finish_take_drop, hf, hlen, hweight] at hbest
    omega

/-- A state that is flagged is labelled. -/
theorem ne_max_of_canReach (hmax : st.dist (bestHops, dest) ≠ StrongUInt.max) {levels : ℕ}
    {s : ℕ × ℕ} (h : expandedCanReach view bans st.dist dest bestHops levels s = true) :
    st.dist s ≠ StrongUInt.max := by
  induction levels with
  | zero =>
    rw [expandedCanReach, decide_eq_true_eq] at h
    exact h ▸ hmax
  | succ levels ih =>
    rw [expandedCanReach] at h
    split_ifs at h with hb
    · exact hb.2.2
    · exact ih h

variable (bans) in
/-- **The test of an entry** is tightness with reachability, once the flags of the next hop count
are right. -/
theorem expandedStep_iff (k n : ℕ) {reach : ℕ × ℕ → Bool} {hops u : ℕ} (hu : layers st hops u ≠ none)
    (hmax : ∀ t, reach t = true → st.dist t ≠ StrongUInt.max)
    (hreach : ∀ t, layers st (hops + 1) t ≠ none → (reach (hops + 1, t) = true ↔
      (view.searchGraph bans).Reaches view.exactIncrement (layers st) dest n (hops + 1) t)) :
    expandedStep view bans st.dist reach hops u k = true ↔ view.allowed bans k = true ∧
      (view.searchGraph bans).IsTightEdge view.exactIncrement (layers st) hops u k ∧
      (view.searchGraph bans).Reaches view.exactIncrement (layers st) dest n (hops + 1)
        (view.adjacencyAt k).target := by
  obtain ⟨c, hc⟩ := Option.ne_none_iff_exists'.mp hu
  obtain ⟨rfl, -⟩ := layers_eq_some_iff.mp hc
  simp only [expandedStep, Bool.and_eq_true, carriesCost_iff, and_assoc]
  constructor
  · rintro ⟨hal, hr, hcost⟩
    have ht : layers st (hops + 1) (view.adjacencyAt k).target =
        some (labels st (hops, u) + view.exactIncrement k) :=
      layers_eq_some_iff.mpr ⟨hcost.symm, hcost ▸ ne_max_iff.mp (hmax _ hr)⟩
    exact ⟨hal, ⟨_, hc, ht⟩, (hreach _ (Option.ne_none_iff_exists'.mpr ⟨_, ht⟩)).mp hr⟩
  · rintro ⟨hal, ⟨c', hc', ht⟩, hr⟩
    obtain rfl := Option.some.inj (hc.symm.trans hc')
    exact ⟨hal, (hreach _ (Option.ne_none_iff_exists'.mpr ⟨_, ht⟩)).mpr hr,
      (layers_eq_some_iff.mp ht).1.symm⟩

/-- **The flags** of a state whose hop count has been processed tell whether it reaches the
destination. -/
theorem canReach_iff (hmax : st.dist (bestHops, dest) ≠ StrongUInt.max)
    (hn : ∀ h u, layers st h u ≠ none → u < view.nodeCount) {levels hops u : ℕ}
    (hu : layers st hops u ≠ none) (hlo : bestHops ≤ hops + levels) (hhi : hops ≤ bestHops) :
    expandedCanReach view bans st.dist dest bestHops levels (hops, u) = true ↔
      (view.searchGraph bans).Reaches view.exactIncrement (layers st) dest (bestHops - hops)
        hops u := by
  induction levels generalizing hops u with
  | zero =>
    obtain rfl : hops = bestHops := by omega
    rw [Nat.sub_self, reaches_zero, expandedCanReach, decide_eq_true_eq, Prod.mk.injEq]
    exact and_iff_right rfl
  | succ levels ih =>
    rw [expandedCanReach]
    by_cases hlevel : hops + (levels + 1) = bestHops
    · rw [if_pos ⟨hn hops u hu, hlevel, layers_ne_none_iff.mp hu⟩, List.any_eq_true,
        show bestHops - hops = levels + 1 by omega, reaches_succ]
      have hstep := fun k => expandedStep_iff bans k levels hu
        (fun t ht => ne_max_of_canReach hmax ht) fun t ht => by
          rw [ih ht (by omega) (by omega), show bestHops - (hops + 1) = levels by omega]
      constructor
      · rintro ⟨k, hk, hs⟩
        obtain ⟨hal, ht, hr⟩ := (hstep k).mp hs
        exact ⟨k, PlanningView.mem_searchGraph_out.mpr ⟨hk, hal⟩, ht, hr⟩
      · rintro ⟨k, hk, ht, hr⟩
        obtain ⟨hk, hal⟩ := PlanningView.mem_searchGraph_out.mp hk
        exact ⟨k, hk, (hstep k).mpr ⟨hal, ht, hr⟩⟩
    · rw [if_neg fun hb => hlevel hb.2.1]
      exact ih hu (by omega) hhi

/-- **Reconstruction** finds nothing exactly when the destination has no finite label, and else
follows the greedy walk of the labels. -/
theorem expandedReconstruct_spec (wf : view.WellFormed) (hsource : source < view.nodeCount)
    (hb : hopBudget < noHopBound)
    (lab : (system view hopBudget bans source).IsLabelling (labels st)) :
    (∀ h ≤ hopBudget, st.dist (h, dest) = StrongUInt.max) ∧
      (expandedReconstruct view hopBudget bans source dest st).found = false ∨
    ∃ bestHops ≤ hopBudget, ∃ es,
      (view.searchGraph bans).IsLayering view.exactIncrement (layers st) source dest hopBudget
        (2 ^ 64 - 1) (labels st (bestHops, dest)) bestHops ∧
      labels st (bestHops, dest) < 2 ^ 64 - 1 ∧
      (view.searchGraph bans).IsGreedy view.exactIncrement (layers st) dest bestHops 0 source es ∧
      (expandedReconstruct view hopBudget bans source dest st).found = true ∧
      (expandedReconstruct view hopBudget bans source dest st).path = view.rawPath source es := by
  unfold expandedReconstruct
  rcases expandedBest_spec hopBudget st.dist dest with
    ⟨hbest, hall⟩ | ⟨bestHops, hle, hbest, hmax, hleast⟩
  · exact Or.inl ⟨fun h hh => hall h (Nat.lt_succ_of_le hh), by simp [hbest]⟩
  · have hle := Nat.le_of_lt_succ hle
    have hlay := isLayering lab hle hmax fun i hi => hleast i (Nat.lt_succ_of_le hi)
    have hn : ∀ h u, layers st h u ≠ none → u < view.nodeCount := fun h u hu =>
      lt_nodeCount lab wf hsource (ne_max_iff.mp (layers_ne_none_iff.mp hu))
    have hflag : ∀ h u, layers st h u ≠ none → h ≤ bestHops →
        (expandedCanReach view bans st.dist dest bestHops bestHops (h, u) = true ↔
          (view.searchGraph bans).Reaches view.exactIncrement (layers st) dest (bestHops - h) h u) :=
      fun h u hu hle => canReach_iff hmax hn hu (by omega) hle
    have hstep : ∀ h u k, layers st h u ≠ none → h < bestHops →
        (expandedStep view bans st.dist
          (expandedCanReach view bans st.dist dest bestHops bestHops) h u k = true ↔
            view.allowed bans k = true ∧
            (view.searchGraph bans).IsTightEdge view.exactIncrement (layers st) h u k ∧
            (view.searchGraph bans).Reaches view.exactIncrement (layers st) dest
              (bestHops - h - 1) (h + 1) (view.adjacencyAt k).target) :=
      fun h u k hu hlt =>
        expandedStep_iff bans k (bestHops - h - 1) hu (fun t ht => ne_max_of_canReach hmax ht)
        fun t ht => by rw [hflag (h + 1) t ht (by omega), Nat.sub_sub]
    have harrived : ∀ h u, layers st h u ≠ none → h ≤ bestHops →
        (view.searchGraph bans).Reaches view.exactIncrement (layers st) dest (bestHops - h) h u →
        (decide (u = dest ∧ h = bestHops) = true ↔ h = bestHops) := by
      intro h u hu hle hr
      rw [decide_eq_true_eq]
      refine ⟨fun he => he.2, ?_⟩
      rintro rfl
      rw [Nat.sub_self] at hr
      exact ⟨reaches_zero.mp hr, rfl⟩
    obtain ⟨es, hes, hrec⟩ := reconstruct_spec hstep harrived (Nat.zero_add _)
      (Option.ne_none_iff_exists'.mpr ⟨_, hlay.first⟩) hlay.reaches ⟨[source], []⟩
    refine Or.inr ⟨bestHops, hle, es, hlay, ne_max_iff.mp hmax, hes, ?_⟩
    have hfin : bestHops ≠ infiniteHops := by
      unfold noHopBound at hb
      unfold infiniteHops
      omega
    simp only [hbest, if_neg hfin, hrec]
    exact ⟨trivial, by simp [PlanningView.rawPath, nodes]⟩

end Expanded

variable {view hopBudget bans}

/-- **Search over hop counts and nodes**, when the budget does not cut it off, finds the canonical
path within the hop bound. -/
theorem expandedSearch_spec (wf : view.WellFormed) {source dest : ℕ}
    (hsource : source < view.nodeCount) (hb : hopBudget < noHopBound) {work : Work}
    (hlimit : (expandedSearch view hopBudget bans source dest work).1.resourceLimit = false) :
    FindsCanonical view bans source dest hopBudget
      (expandedSearch view hopBudget bans source dest work).1 := by
  have hwithin : ∀ hops, WithinHops hopBudget hops ↔ hops ≤ hopBudget := fun hops =>
    or_iff_right hb.ne
  rcases Expanded.expandedSearch_cases view hopBudget bans source dest work with
    h | ⟨st, lab, heq⟩
  · rw [h] at hlimit
    cases hlimit
  rw [heq]
  rcases Expanded.expandedReconstruct_spec wf hsource hb lab with
    ⟨hall, hfound⟩ | ⟨bestHops, hle, es, hlay, hcap, hes, hfound, hpath⟩
  · refine .inr ⟨hfound, fun q hq => ?_⟩
    have hlen := (hwithin _).mp hq.withinHops
    have hw := Expanded.le_of_walk lab hq.isWalk_searchGraph hlen hq.weight_lt
    rw [hq.finish, Expanded.labels, hall _ hlen, value_max] at hw
    have := hq.weight_lt
    omega
  · exact .inl ⟨hfound, es, hpath, isCanonicalPath_of_isGreedy wf hlay hes hcap hle
      (fun _ => (hwithin _).mpr hle) fun q hq => (hwithin _).mp hq.withinHops⟩

end PathPlanner
