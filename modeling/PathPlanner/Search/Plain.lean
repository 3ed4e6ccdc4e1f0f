import PathPlanner.Library.LabelSetting
import PathPlanner.Search.Walk

/-!
# Search over nodes

`PlainSearch` labels nodes with their least cost and, among the paths of that cost, their least
hop count. The largest cost value stands for an unlabelled node. A bound on the hops is applied to
the hop count of the label; it cuts nothing off as long as it admits every simple path, because
the labels of a hop count are preceded by labels of every smaller one.

## Main definitions

* `PlainState`, `plainRelax`, `plainLoop`: the label-setting loop
* `plainCanReach`, `plainWalk`, `plainSearch`: reconstruction and the whole search

## Main results

* `plainLoop_isLabelling`: when the loop is not cut off by the budget, its labels are closed
* `Plain.isLayering`: they certify the optimum among all paths
-/

namespace PathPlanner

open Multigraph

variable (view : PlanningView) (hopBudget : ℕ) (bans : BanSet)

/-! ## The loop -/

/-- The local state of `PlainSearch`. -/
structure PlainState where
  dist : ℕ → CostValue
  hops : ℕ → ℕ
  settled : ℕ → Bool
  queue : PriorityQueue
  costOverflow : Bool
  work : Work

/-- One iteration over the entries of the node of `entry`; an error is an exhausted budget. -/
def plainRelax (entry : QueueEntry) (st : PlainState) (k : ℕ) : Except PlainState PlainState :=
  let candidate := view.adjacencyAt k
  let nextHops := st.hops entry.state + 1
  if bans.adjacencyBanned k then .ok st
  else if bans.nodeBanned candidate.target then .ok st
  else if hopBudget ≠ noHopBound ∧ nextHops > hopBudget then .ok st
  else
    match view.hopIncrement candidate with
    | none => .ok { st with costOverflow := true }
    | some increment =>
      match checkedAdd entry.cost increment with
      | none => .ok { st with costOverflow := true }
      | some nextCost =>
        match st.work.spendState with
        | .error work => .error { st with work }
        | .ok work =>
          if !betterLabel nextCost nextHops (st.dist candidate.target) (st.hops candidate.target)
          then .ok { st with work }
          else
            let st := { st with
              dist := Function.update st.dist candidate.target nextCost
              hops := Function.update st.hops candidate.target nextHops
              queue := st.queue.push ⟨nextCost, nextHops, candidate.target⟩ }
            match work.spendPush with
            | .error work => .error { st with work }
            | .ok work => .ok { st with work }

/-- The loop over the queue, for at most `fuel` entries. -/
def plainLoop : ℕ → PlainState → Except PlainState PlainState
  | 0, st => .ok st
  | fuel + 1, st =>
    match st.queue.pop with
    | none => .ok st
    | some (entry, queue) =>
      let st := { st with queue }
      if st.settled entry.state then plainLoop fuel st
      else if betterLabel (st.dist entry.state) (st.hops entry.state) entry.cost entry.hops then
        plainLoop fuel st
      else
        let st := { st with settled := Function.update st.settled entry.state true }
        match (view.adjacencyRange entry.state).foldlM (plainRelax view hopBudget bans entry) st with
        | .error st => .error st
        | .ok st => plainLoop fuel st

/-- The state before the first push is paid for. -/
def plainStart (source : ℕ) (work : Work) : PlainState where
  dist := Function.update (fun _ => StrongUInt.max) source (.ofNat 0)
  hops := Function.update (fun _ => infiniteHops) source 0
  settled := fun _ => false
  queue := PriorityQueue.empty.push ⟨.ofNat 0, 0, source⟩
  costOverflow := false
  work := work

/-! ## Reconstruction -/

/-- Whether an entry of `node` may be followed: not banned, one hop further, towards the
destination, at the cost of the label. -/
def plainStep (dist : ℕ → CostValue) (hops : ℕ → ℕ) (reach : ℕ → Bool) (node k : ℕ) : Bool :=
  let candidate := view.adjacencyAt k
  view.allowed bans k && hops candidate.target = hops node + 1 && reach candidate.target &&
    carriesCost view k (dist node) (dist candidate.target)

/-- `can_reach` after `levels` of the backward levels, from the hop count of the destination down.
A level writes the nodes of its bucket, from the flags of the level above. -/
def plainCanReach (dist : ℕ → CostValue) (hops : ℕ → ℕ) (dest : ℕ) : ℕ → ℕ → Bool
  | 0, node => node = dest
  | levels + 1, node =>
    let reach := plainCanReach dist hops dest levels
    if node < view.nodeCount ∧ dist node ≠ StrongUInt.max ∧
        hops node + (levels + 1) = hops dest then
      (view.adjacencyRange node).any (plainStep view bans dist hops reach node)
    else reach node

/-- What `PlainSearch` does once the queue is empty. -/
def plainReconstruct (source dest : ℕ) (st : PlainState) : SearchOutcome :=
  let outcome : SearchOutcome := { costOverflow := st.costOverflow }
  if st.dist dest = StrongUInt.max then outcome
  else
    let reach := plainCanReach view bans st.dist st.hops dest (st.hops dest)
    if !reach source then outcome
    else
      match reconstruct view (fun _ current => decide (current = dest))
          (fun _ node k => plainStep view bans st.dist st.hops reach node k)
          (st.hops dest) 0 source ⟨[source], []⟩ with
      | none => outcome
      | some path => { outcome with found := true, path }

/-- `Searcher::PlainSearch`. -/
def plainSearch (source dest : ℕ) (work : Work) : SearchOutcome × Work :=
  let start := plainStart source work
  match work.spendPush with
  | .error work => ({ resourceLimit := true }, work)
  | .ok work =>
    match plainLoop view hopBudget bans (work.budget.pushesRemaining + 1) { start with work } with
    | .error st => ({ resourceLimit := true, costOverflow := st.costOverflow }, st.work)
    | .ok st => (plainReconstruct view bans source dest st, st.work)

/-! ## Labels -/

namespace Plain

/-- The relaxations of `PlainSearch`, as a label-setting problem. -/
def system (source : ℕ) : LabelSetting ℕ ℕ (ℕ ×ₗ ℕ) where
  out := (view.searchGraph bans).out
  relax _ k l :=
    if WithinHops hopBudget ((ofLex l).2 + 1) ∧
        (ofLex l).1 + view.exactIncrement k < 2 ^ 64 then
      some (view.graph.target k,
        toLex ((ofLex l).1 + view.exactIncrement k, (ofLex l).2 + 1))
    else none
  start := source
  init := toLex (0, 0)
  top := toLex (2 ^ 64 - 1, infiniteHops)
  init_le _ := bot_le
  le_of_relax := by
    intro s k l t l' h
    split_ifs at h
    obtain ⟨-, rfl⟩ := Prod.mk.inj (Option.some.inj h)
    exact (Prod.Lex.toLex_strictMono (a := ofLex l)
      (Prod.mk_lt_mk.mpr (Or.inr ⟨Nat.le_add_right _ _, Nat.lt_succ_self _⟩))).le

variable {view hopBudget bans}

theorem relax_eq_some_iff {source u k t : ℕ} {c h c' h' : ℕ} :
    (system view hopBudget bans source).relax u k (toLex (c, h)) = some (t, toLex (c', h')) ↔
      WithinHops hopBudget (h + 1) ∧ c + view.exactIncrement k < 2 ^ 64 ∧
        view.graph.target k = t ∧ c' = c + view.exactIncrement k ∧ h' = h + 1 := by
  unfold system
  dsimp only
  split_ifs with hc
  · simp only [Option.some.injEq, Prod.mk.injEq, EmbeddingLike.apply_eq_iff_eq, ofLex_toLex] at hc ⊢
    constructor
    · rintro ⟨ht, hc', hh'⟩
      exact ⟨hc.1, hc.2, ht, hc'.symm, hh'.symm⟩
    · rintro ⟨-, -, ht, hc', hh'⟩
      exact ⟨ht, hc'.symm, hh'.symm⟩
  · refine iff_of_false (by simp) ?_
    rintro ⟨hw, hlt, -⟩
    exact hc ⟨hw, hlt⟩

/-- The label of a node in a state of the search. -/
def labels (st : PlainState) (u : ℕ) : ℕ ×ₗ ℕ := label (st.dist u) (st.hops u)

/-- The labelled entries of the queue. -/
def queued (st : PlainState) : Set ((ℕ ×ₗ ℕ) × ℕ) :=
  {e | ∃ entry ∈ st.queue.entries, e = (label entry.cost entry.hops, entry.state)}

variable (view hopBudget bans) in
/-- The invariant of the loop, while the entries `rest` of `cur` wait. -/
def Invariant (source : ℕ) (st : PlainState) (level : ℕ ×ₗ ℕ) (cur : ℕ) (rest : List ℕ) : Prop :=
  (system view hopBudget bans source).Invariant (labels st) (fun u => st.settled u = true)
    (queued st) level cur (rest.filter (view.allowed bans))

/-- The state but for the overflow flag and the states spent. -/
structure SameLabels (st st' : PlainState) : Prop where
  dist : st'.dist = st.dist
  hops : st'.hops = st.hops
  settled : st'.settled = st.settled
  queue : st'.queue = st.queue
  pushes : st'.work.budget.pushesRemaining = st.work.budget.pushesRemaining

/-- The label of `target` improved to `(newCost, newHops)`, was queued, and a push was paid. -/
structure Improves (st st' : PlainState) (target : ℕ) (newCost : CostValue) (newHops : ℕ) :
    Prop where
  dist : st'.dist = Function.update st.dist target newCost
  hops : st'.hops = Function.update st.hops target newHops
  settled : st'.settled = st.settled
  queue : st'.queue = st.queue.push ⟨newCost, newHops, target⟩
  pushes : st'.work.budget.pushesRemaining + 1 = st.work.budget.pushesRemaining

variable {source : ℕ} {entry : QueueEntry} {st st' : PlainState} {k : ℕ}

variable (source) in
/-- **What one iteration over the entries does**: the labels stay, and the relaxation of an allowed
entry would not improve them; or the relaxation of an allowed entry improves a label. -/
theorem plainRelax_ok (hd : st.dist entry.state = entry.cost) (hh : st.hops entry.state = entry.hops)
    (h : plainRelax view hopBudget bans entry st k = .ok st') :
    (SameLabels st st' ∧ (view.allowed bans k = true → ∀ t l,
      (system view hopBudget bans source).relax entry.state k (labels st entry.state) = some (t, l) →
        labels st t ≤ l)) ∨
    ∃ cost : CostValue, view.allowed bans k = true ∧
      (system view hopBudget bans source).relax entry.state k (labels st entry.state) =
        some (view.graph.target k, label cost (entry.hops + 1)) ∧
      label cost (entry.hops + 1) < labels st (view.graph.target k) ∧
      Improves st st' (view.graph.target k) cost (entry.hops + 1) := by
  have hlab : labels st entry.state = toLex (entry.cost.value, entry.hops) := by
    rw [labels, label, hd, hh]
  -- an entry whose relaxation yields nothing leaves the labels alone
  have hnone : ∀ st' : PlainState, SameLabels st st' → (view.allowed bans k = true →
      ¬ (WithinHops hopBudget (entry.hops + 1) ∧
        entry.cost.value + view.exactIncrement k < 2 ^ 64)) →
      SameLabels st st' ∧ (view.allowed bans k = true → ∀ t l,
        (system view hopBudget bans source).relax entry.state k (labels st entry.state) =
          some (t, l) → labels st t ≤ l) := by
    refine fun st' hsame hno => ⟨hsame, fun hal t l hr => absurd ?_ (hno hal)⟩
    obtain ⟨l, rfl⟩ := toLex.surjective l
    rw [hlab] at hr
    obtain ⟨hw, hlt, -⟩ := relax_eq_some_iff.mp hr
    exact ⟨hw, hlt⟩
  unfold plainRelax at h
  simp only at h
  split_ifs at h with hab hnb hhop
  · obtain rfl := Except.ok.inj h
    refine Or.inl (hnone st ⟨rfl, rfl, rfl, rfl, rfl⟩ fun hal => ?_)
    simp [PlanningView.allowed, hab] at hal
  · obtain rfl := Except.ok.inj h
    refine Or.inl (hnone st ⟨rfl, rfl, rfl, rfl, rfl⟩ fun hal => ?_)
    simp [PlanningView.allowed, hnb] at hal
  · obtain rfl := Except.ok.inj h
    refine Or.inl (hnone st ⟨rfl, rfl, rfl, rfl, rfl⟩ fun _ hc => ?_)
    rw [hh] at hhop
    rcases hc.1 with he | hle
    · exact hhop.1 he
    · omega
  · have hal : view.allowed bans k = true := PlanningView.allowed_of_not hab hnb
    have hwithin : WithinHops hopBudget (entry.hops + 1) := by
      rw [hh] at hhop
      by_cases he : hopBudget = noHopBound
      · exact Or.inl he
      · exact Or.inr (by omega)
    split at h
    · next hi =>
      obtain rfl := Except.ok.inj h
      have := hopIncrement_eq_none_iff.mp hi
      exact Or.inl (hnone _ ⟨rfl, rfl, rfl, rfl, rfl⟩ fun _ hc => by omega)
    · next increment hi =>
      have hinc := hopIncrement_eq_some_iff.mp hi
      split at h
      · next hs =>
        obtain rfl := Except.ok.inj h
        have := checkedAdd_eq_none_iff.mp hs
        exact Or.inl (hnone _ ⟨rfl, rfl, rfl, rfl, rfl⟩ fun _ hc => by omega)
      · next nextCost hs =>
        have hsum := checkedAdd_eq_some_iff.mp hs
        have hlt := nextCost.lt
        have hrel : (system view hopBudget bans source).relax entry.state k
            (labels st entry.state) =
              some (view.graph.target k, label nextCost (entry.hops + 1)) := by
          rw [hlab]
          exact relax_eq_some_iff.mpr ⟨hwithin, by omega, rfl, by omega, rfl⟩
        split at h
        · cases h
        · next work hw =>
          have hpush := Work.pushes_of_spendState hw
          split_ifs at h with hbetter
          · obtain rfl := Except.ok.inj h
            refine Or.inl ⟨⟨rfl, rfl, rfl, rfl, hpush⟩, fun _ t l hr => ?_⟩
            obtain ⟨rfl, rfl⟩ := Prod.mk.inj (Option.some.inj (hrel.symm.trans hr))
            rw [Bool.not_eq_true', ← Bool.not_eq_true, betterLabel_iff, not_lt, hh] at hbetter
            exact hbetter
          · split at h
            · cases h
            · next work' hw' =>
              obtain rfl := Except.ok.inj h
              rw [Bool.not_eq_true', Bool.not_eq_false, betterLabel_iff, hh] at hbetter
              refine Or.inr ⟨nextCost, hal, hrel, hbetter, ⟨rfl, ?_, rfl, ?_, ?_⟩⟩
              · rw [hh]
                rfl
              · rw [hh]
                rfl
              · exact (Work.pushes_of_spendPush hw').trans hpush

theorem SameLabels.labels_eq (h : SameLabels st st') : labels st' = labels st := by
  funext u
  rw [labels, labels, h.dist, h.hops]

theorem SameLabels.queued_eq (h : SameLabels st st') : queued st' = queued st := by
  rw [queued, queued, h.queue]

theorem Improves.labels_eq {target newHops : ℕ} {newCost : CostValue}
    (h : Improves st st' target newCost newHops) :
    labels st' = Function.update (labels st) target (label newCost newHops) := by
  funext u
  rw [labels, h.dist, h.hops]
  by_cases hu : u = target
  · subst hu
    simp
  · simp [hu, labels]

theorem Improves.queued_eq {target newHops : ℕ} {newCost : CostValue}
    (h : Improves st st' target newCost newHops) :
    queued st' = insert (label newCost newHops, target) (queued st) := by
  ext e
  simp only [queued, h.queue, PriorityQueue.mem_push, Set.mem_ofPred_eq, Set.mem_insert_iff]
  constructor
  · rintro ⟨entry, rfl | hm, rfl⟩
    · exact Or.inl rfl
    · exact Or.inr ⟨entry, hm, rfl⟩
  · rintro (rfl | ⟨entry, hm, rfl⟩)
    · exact ⟨_, Or.inl rfl, rfl⟩
    · exact ⟨entry, Or.inr hm, rfl⟩

variable (view hopBudget bans) in
/-- What holds while the entries `rest` of the node of `entry` wait: the node is settled with the
label of the entry. -/
structure Scanning (source : ℕ) (entry : QueueEntry) (st : PlainState) (rest : List ℕ) :
    Prop where
  inv : Invariant view hopBudget bans source st (label entry.cost entry.hops) entry.state rest
  settled : st.settled entry.state = true
  dist : st.dist entry.state = entry.cost
  hops : st.hops entry.state = entry.hops

/-- The queue and the pushes left, which every round of the loop diminishes. -/
def remaining (st : PlainState) : ℕ := st.queue.size + st.work.budget.pushesRemaining

/-- **One iteration** keeps the invariant, and pays for what it pushes. -/
theorem Scanning.relax {rest : List ℕ} (sc : Scanning view hopBudget bans source entry st (k :: rest))
    (hk : k ∈ view.adjacencyRange entry.state)
    (h : plainRelax view hopBudget bans entry st k = .ok st') :
    Scanning view hopBudget bans source entry st' rest ∧ remaining st' = remaining st := by
  have hlab : labels st entry.state = label entry.cost entry.hops := by
    rw [labels, sc.dist, sc.hops]
  have hinv := sc.inv
  rcases plainRelax_ok source sc.dist sc.hops h with
    ⟨hsame, hskip⟩ | ⟨cost, hal, hr, hlt, himp⟩
  · refine ⟨⟨?_, by rw [hsame.settled, sc.settled], by rw [hsame.dist, sc.dist],
      by rw [hsame.hops, sc.hops]⟩, by rw [remaining, remaining, hsame.queue, hsame.pushes]⟩
    rw [Invariant, hsame.labels_eq, hsame.queued_eq, hsame.settled]
    rw [Invariant, List.filter_cons] at hinv
    split_ifs at hinv with hal
    · exact hinv.skip (hskip hal)
    · exact hinv
  · rw [Invariant, List.filter_cons_of_pos hal] at hinv
    have hout : k ∈ (system view hopBudget bans source).out entry.state :=
      PlanningView.mem_searchGraph_out.mpr ⟨hk, hal⟩
    have hnext := hinv.improve sc.settled hlab hout hr hlt
    -- the label of the node itself never improves
    have hne : entry.state ≠ view.graph.target k := by
      intro he
      have hle := (system view hopBudget bans source).le_of_relax hr
      rw [← he] at hlt
      exact absurd hlt (not_lt.mpr hle)
    refine ⟨⟨?_, by rw [himp.settled, sc.settled], ?_, ?_⟩, ?_⟩
    · rw [Invariant, himp.labels_eq, himp.queued_eq, himp.settled]
      exact hnext
    · rw [himp.dist, Function.update_of_ne hne, sc.dist]
    · rw [himp.hops, Function.update_of_ne hne, sc.hops]
    · have := himp.pushes
      rw [remaining, remaining, himp.queue, PriorityQueue.size_push]
      omega

/-- The whole scan of a node keeps the invariant. -/
theorem Scanning.fold {rest : List ℕ} (sc : Scanning view hopBudget bans source entry st rest)
    (hrest : ∀ k ∈ rest, k ∈ view.adjacencyRange entry.state)
    (h : rest.foldlM (plainRelax view hopBudget bans entry) st = .ok st') :
    Scanning view hopBudget bans source entry st' [] ∧ remaining st' = remaining st := by
  induction rest generalizing st with
  | nil =>
    obtain rfl := Except.ok.inj h
    exact ⟨sc, rfl⟩
  | cons k rest ih =>
    rw [List.foldlM_cons] at h
    cases hk : plainRelax view hopBudget bans entry st k with
    | error st₁ =>
      rw [hk] at h
      cases h
    | ok st₁ =>
      rw [hk] at h
      obtain ⟨sc₁, hr₁⟩ := sc.relax (hrest k List.mem_cons_self) hk
      obtain ⟨sc₂, hr₂⟩ := ih sc₁ (fun l hl => hrest l (List.mem_cons_of_mem _ hl)) h
      exact ⟨sc₂, hr₂.trans hr₁⟩

/-- Popping an entry takes its label off the queue. -/
theorem queued_of_pop {queue : PriorityQueue} (h : st.queue.pop = some (entry, queue)) :
    queued st = insert (label entry.cost entry.hops, entry.state) (queued { st with queue }) := by
  ext e
  simp only [queued, (PriorityQueue.pop_spec h).1, List.mem_cons, Set.mem_ofPred_eq,
    Set.mem_insert_iff]
  constructor
  · rintro ⟨e', rfl | hm, rfl⟩
    · exact Or.inl rfl
    · exact Or.inr ⟨e', hm, rfl⟩
  · rintro (rfl | ⟨e', hm, rfl⟩)
    · exact ⟨_, Or.inl rfl, rfl⟩
    · exact ⟨e', Or.inr hm, rfl⟩

theorem queued_eq_empty (h : st.queue.entries = []) : queued st = ∅ := by
  simp [queued, h]

/-- The entry popped has a least label. -/
theorem label_le_of_key_le {e e' : QueueEntry} (h : e.key ≤ e'.key) :
    label e.cost e.hops ≤ label e'.cost e'.hops := by
  rw [QueueEntry.key, QueueEntry.key, Prod.Lex.toLex_le_toLex, Prod.Lex.toLex_le_toLex] at h
  rw [label, label, Prod.Lex.toLex_le_toLex]
  rcases h with h | ⟨h, h' | ⟨h', -⟩⟩
  · exact Or.inl h
  · exact Or.inr ⟨congrArg StrongUInt.value h, h'.le⟩
  · exact Or.inr ⟨congrArg StrongUInt.value h, h'.le⟩

/-- Settling the node of a fresh entry starts the scan of its entries. -/
theorem Scanning.start {queue : PriorityQueue} {level : ℕ ×ₗ ℕ} {cur : ℕ}
    (inv : Invariant view hopBudget bans source st level cur [])
    (hp : st.queue.pop = some (entry, queue))
    (hstale : ¬ betterLabel (st.dist entry.state) (st.hops entry.state) entry.cost entry.hops) :
    Scanning view hopBudget bans source entry
      { st with queue, settled := Function.update st.settled entry.state true }
      (view.adjacencyRange entry.state) := by
  rw [Invariant, queued_of_pop hp] at inv
  have hd := inv.eq_of_not_lt fun hlt => hstale (betterLabel_iff.mpr hlt)
  obtain ⟨hdist, hhops⟩ := Prod.mk.inj (toLex.injective hd)
  refine ⟨?_, Function.update_self .., StrongUInt.ext_iff.mpr hdist, hhops⟩
  have hset : (fun u => Function.update st.settled entry.state true u = true) =
      fun u => st.settled u = true ∨ u = entry.state := by
    funext u
    by_cases hu : u = entry.state <;> simp [hu]
  rw [Invariant, hset]
  refine inv.settle hd ?_
  rintro l s ⟨e, he, hls⟩
  obtain ⟨rfl, rfl⟩ := Prod.mk.inj hls
  exact label_le_of_key_le ((PriorityQueue.pop_spec hp).2 e he)

/-- **The loop ends in a labelling** when the budget does not cut it off. -/
theorem plainLoop_isLabelling {fuel : ℕ} {level : ℕ ×ₗ ℕ} {cur : ℕ}
    (inv : Invariant view hopBudget bans source st level cur [])
    (hfuel : remaining st ≤ fuel) (h : plainLoop view hopBudget bans fuel st = .ok st') :
    (system view hopBudget bans source).IsLabelling (labels st') := by
  induction fuel generalizing st level cur with
  | zero =>
    obtain rfl := Except.ok.inj h
    refine LabelSetting.Invariant.isLabelling inv (queued_eq_empty (List.length_eq_zero_iff.mp ?_))
    exact Nat.le_zero.mp ((Nat.le_add_right _ _).trans hfuel)
  | succ fuel ih =>
    rw [plainLoop] at h
    split at h
    · next hp =>
      obtain rfl := Except.ok.inj h
      exact LabelSetting.Invariant.isLabelling inv
        (queued_eq_empty (PriorityQueue.pop_eq_none_iff.mp hp))
    · next entry queue hp =>
      have hsize := PriorityQueue.size_of_pop hp
      have hrem : queue.size + st.work.budget.pushesRemaining ≤ fuel := by
        unfold remaining at hfuel
        omega
      have hinv := inv
      rw [Invariant, queued_of_pop hp] at hinv
      dsimp only at h
      split_ifs at h with hset hstale
      · have hnext : Invariant view hopBudget bans source { st with queue } level cur [] :=
          hinv.stale (Or.inl hset)
        exact ih hnext hrem h
      · have hnext : Invariant view hopBudget bans source { st with queue } level cur [] :=
          hinv.stale (Or.inr (betterLabel_iff.mp hstale))
        exact ih hnext hrem h
      · split at h
        · cases h
        · next st₁ hscan =>
          obtain ⟨hend, hrem₁⟩ := (Scanning.start inv hp hstale).fold (fun _ hk => hk) hscan
          exact ih hend.inv (hrem₁.trans_le hrem) h

/-- The first state satisfies the invariant. -/
theorem invariant_start {work : Work} :
    Invariant view hopBudget bans source (plainStart source work) (toLex (0, 0)) source [] := by
  have h := LabelSetting.Invariant.initial (R := system view hopBudget bans source)
    (Prod.Lex.toLex_lt_toLex.mpr (Or.inl (by decide)))
  have hl : labels (plainStart source work) =
      Function.update (fun _ => (system view hopBudget bans source).top)
        (system view hopBudget bans source).start (system view hopBudget bans source).init := by
    funext u
    rw [labels]
    by_cases hu : u = source <;> simp [plainStart, system, label, hu]
  have hq : queued (plainStart source work) =
      {((system view hopBudget bans source).init, (system view hopBudget bans source).start)} := by
    ext e
    simp [queued, plainStart, PriorityQueue.empty, system, label]
  have hs : (fun u => (plainStart source work).settled u = true) = fun _ => False := by
    simp [plainStart]
  rw [Invariant, hl, hq, hs]
  exact h

variable (view hopBudget bans source) in
/-- **A search that is not cut off** reconstructs from a labelling. -/
theorem plainSearch_cases (dest : ℕ) (work : Work) :
    (plainSearch view hopBudget bans source dest work).1.resourceLimit = true ∨
    ∃ st, (system view hopBudget bans source).IsLabelling (labels st) ∧
      (plainSearch view hopBudget bans source dest work).1 =
        plainReconstruct view bans source dest st := by
  unfold plainSearch
  dsimp only
  split
  · exact Or.inl rfl
  · next work' hw =>
    split
    · exact Or.inl rfl
    · next st hst =>
      refine Or.inr ⟨st, ?_, rfl⟩
      refine plainLoop_isLabelling invariant_start ?_ hst
      simp [remaining, plainStart, PriorityQueue.size, PriorityQueue.push, PriorityQueue.empty]
      omega

/-! ## Optimality of the labels -/

section Labelling

variable {D : ℕ → ℕ ×ₗ ℕ} (lab : (system view hopBudget bans source).IsLabelling D)

include lab

/-- A label other than that of the source extends a smaller one by one entry. -/
theorem exists_predecessor {t c h : ℕ} (ht : D t = toLex (c, h))
    (hlt : D t < toLex (2 ^ 64 - 1, infiniteHops)) :
    t = source ∧ c = 0 ∧ h = 0 ∨ ∃ s k c', D s = toLex (c', h - 1) ∧
      D s < toLex (2 ^ 64 - 1, infiniteHops) ∧ 0 < h ∧
      k ∈ (view.searchGraph bans).out s ∧ view.graph.target k = t ∧
      c = c' + view.exactIncrement k := by
  rcases lab.produced t hlt with rfl | ⟨s, k, hs, hk, hr⟩
  · have h0 : D t = toLex (0, 0) := lab.start
    rw [ht] at h0
    obtain ⟨hc, hh⟩ := Prod.mk.inj (toLex.injective h0)
    exact Or.inl ⟨rfl, hc, hh⟩
  · obtain ⟨⟨c', h'⟩, hd⟩ := toLex.surjective (D s)
    rw [← hd, ht] at hr
    obtain ⟨-, -, htar, hc, hh⟩ := relax_eq_some_iff.mp hr
    refine Or.inr ⟨s, k, c', ?_, hs, by omega, hk, htar, hc⟩
    rw [← hd, hh, Nat.add_sub_cancel]

/-- Every label is carried by a path from the source. -/
theorem exists_walk {t c h : ℕ} (ht : D t = toLex (c, h))
    (hlt : D t < toLex (2 ^ 64 - 1, infiniteHops)) :
    ∃ es, (view.searchGraph bans).IsWalk source es ∧ view.graph.finish source es = t ∧
      view.pathWeight es = c ∧ es.length = h := by
  induction h generalizing t c with
  | zero =>
    rcases exists_predecessor lab ht hlt with ⟨rfl, rfl, -⟩ | ⟨_, _, _, -, -, hpos, -⟩
    · exact ⟨[], trivial, rfl, rfl, rfl⟩
    · omega
  | succ h ih =>
    rcases exists_predecessor lab ht hlt with ⟨-, -, h0⟩ | ⟨s, k, c', hs, hslt, -, hk, rfl, rfl⟩
    · omega
    · obtain ⟨es, hes, rfl, rfl, hl⟩ := ih hs hslt
      refine ⟨es ++ [k], ?_, ?_, ?_, ?_⟩
      · simpa [hes] using hk
      · simp
      · simp [PlanningView.pathWeight]
      · simp [hl]

/-- **Labels of every smaller hop count** precede a label, at no greater cost. -/
theorem exists_label_of_le {t c h j : ℕ} (ht : D t = toLex (c, h))
    (hlt : D t < toLex (2 ^ 64 - 1, infiniteHops)) (hj : j ≤ h) :
    ∃ s c', D s = toLex (c', j) ∧ D s < toLex (2 ^ 64 - 1, infiniteHops) ∧ c' ≤ c := by
  induction h generalizing t c with
  | zero => exact ⟨t, c, by rw [ht, Nat.le_zero.mp hj], hlt, le_rfl⟩
  | succ h ih =>
    rcases hj.lt_or_eq with hj | rfl
    · rcases exists_predecessor lab ht hlt with ⟨-, -, h0⟩ | ⟨s, k, c', hs, hslt, -, -, -, rfl⟩
      · omega
      · obtain ⟨s', c'', hs', hlt', hle⟩ := ih hs hslt (by omega)
        exact ⟨s', c'', hs', hlt', hle.trans (Nat.le_add_right _ _)⟩
    · exact ⟨t, c, ht, hlt, le_rfl⟩

variable (wf : view.WellFormed) (hsource : source < view.nodeCount)

include wf hsource

theorem lt_nodeCount {t : ℕ} (hlt : D t < toLex (2 ^ 64 - 1, infiniteHops)) :
    t < view.nodeCount := by
  rcases lab.produced t hlt with rfl | ⟨s, k, -, hk, hr⟩
  · exact hsource
  · obtain ⟨c', hd⟩ := toLex.surjective (D s)
    obtain ⟨c, hd'⟩ := toLex.surjective (D t)
    rw [← hd, ← hd'] at hr
    rw [← (relax_eq_some_iff.mp hr).2.2.1]
    exact wf.target_lt_of_mem_out (PlanningView.mem_searchGraph_out.mp hk).1

/-- **Closure without the hop bound**: a bound that admits every simple path only ever prunes when
all nodes are labelled with fewer hops at no greater cost. -/
theorem closed_unbounded (hbound : WithinHops hopBudget (view.nodeCount - 1)) {s k c h : ℕ}
    (hs : D s = toLex (c, h)) (hlt : D s < toLex (2 ^ 64 - 1, infiniteHops))
    (hk : k ∈ (view.searchGraph bans).out s) (hc : c + view.exactIncrement k < 2 ^ 64) :
    D (view.graph.target k) ≤ toLex (c + view.exactIncrement k, h + 1) := by
  by_cases hw : WithinHops hopBudget (h + 1)
  · refine lab.closed s k _ _ hlt hk ?_
    rw [hs]
    exact relax_eq_some_iff.mpr ⟨hw, hc, rfl, rfl, rfl⟩
  · -- the labels of the hop counts up to `h` belong to different nodes, which are then all nodes
    have hn : view.nodeCount ≤ h + 1 := by
      rcases hbound with he | hle
      · exact absurd (Or.inl he) hw
      · have : ¬ h + 1 ≤ hopBudget := fun hle => hw (Or.inr hle)
        omega
    choose! f c' hf hflt hfc using fun j (hj : j ≤ h) => exists_label_of_le lab hs hlt hj
    have hmaps : (Finset.range (h + 1)).image f ⊆ Finset.range view.nodeCount := by
      intro v hv
      obtain ⟨j, hj, rfl⟩ := Finset.mem_image.mp hv
      rw [Finset.mem_range] at hj ⊢
      exact lt_nodeCount lab wf hsource (hflt j (by omega))
    have hinj : Set.InjOn f (Finset.range (h + 1)) := by
      intro i hi j hj hij
      rw [Finset.coe_range, Set.mem_Iio] at hi hj
      have hi' := hf i (by omega)
      rw [hij, hf j (by omega)] at hi'
      exact (Prod.mk.inj (toLex.injective hi')).2.symm
    have hall := Finset.eq_of_subset_of_card_le hmaps
      (by rw [Finset.card_image_of_injOn hinj, Finset.card_range, Finset.card_range]; exact hn)
    have htar : view.graph.target k ∈ Finset.range view.nodeCount :=
      Finset.mem_range.mpr (wf.target_lt_of_mem_out (PlanningView.mem_searchGraph_out.mp hk).1)
    rw [← hall] at htar
    obtain ⟨j, hj, hfj⟩ := Finset.mem_image.mp htar
    rw [Finset.mem_range] at hj
    rw [← hfj, hf j (by omega)]
    have hle := hfc j (by omega)
    exact Prod.Lex.toLex_le_toLex.mpr (by omega)

/-- **No path is better than the label** of the node it leads to. -/
theorem le_of_walk (hbound : WithinHops hopBudget (view.nodeCount - 1)) {es : List ℕ}
    (hes : (view.searchGraph bans).IsWalk source es) (hc : view.pathWeight es < 2 ^ 64 - 1) :
    D (view.graph.finish source es) ≤ toLex (view.pathWeight es, es.length) := by
  induction es using List.reverseRecOn with
  | nil => exact lab.start.le
  | append_singleton es k ih =>
    simp only [PlanningView.pathWeight, weight_append, weight_cons, weight_nil, add_zero,
      isWalk_append, isWalk_cons, isWalk_nil, and_true, PlanningView.searchGraph_finish] at hes hc
    have hle := ih hes.1 (by unfold PlanningView.pathWeight; omega)
    obtain ⟨⟨c₀, h₀⟩, hd⟩ := toLex.surjective (D (view.graph.finish source es))
    rw [← hd, Prod.Lex.toLex_le_toLex] at hle
    simp only [PlanningView.pathWeight] at hle
    have hlt : D (view.graph.finish source es) < toLex (2 ^ 64 - 1, infiniteHops) := by
      rw [← hd, Prod.Lex.toLex_lt_toLex]
      exact Or.inl (by simp only; omega)
    have hcl := closed_unbounded lab wf hsource hbound hd.symm hlt hes.2 (by omega)
    rw [finish_append, finish_cons, finish_nil]
    refine hcl.trans (Prod.Lex.toLex_le_toLex.mpr ?_)
    simp only [PlanningView.pathWeight, weight_append, weight_cons, weight_nil, add_zero,
      List.length_append, List.length_cons, List.length_nil]
    omega

end Labelling

/-! ## Reconstruction from the labels -/

/-- The labels as layered costs: the cost of a node at its hop count. -/
def layers (st : PlainState) (hops u : ℕ) : Option ℕ :=
  if st.hops u = hops ∧ st.dist u ≠ StrongUInt.max then some (st.dist u).value else none

theorem layers_eq_some_iff {hops u c : ℕ} :
    layers st hops u = some c ↔ labels st u = toLex (c, hops) ∧ c < 2 ^ 64 - 1 := by
  unfold layers labels label
  split_ifs with h
  · rw [ne_max_iff] at h
    simp only [Option.some_inj, EmbeddingLike.apply_eq_iff_eq, Prod.mk.injEq, h.1, and_true]
    constructor
    · rintro rfl
      exact ⟨rfl, h.2⟩
    · exact fun hc => hc.1
  · refine iff_of_false (by simp) ?_
    rintro ⟨he, hc⟩
    obtain ⟨rfl, rfl⟩ := Prod.mk.inj (toLex.injective he)
    exact h ⟨rfl, ne_max_iff.mpr hc⟩

theorem lt_top_of_lt {l : ℕ ×ₗ ℕ} {c h : ℕ} (hl : l ≤ toLex (c, h)) (hc : c < 2 ^ 64 - 1) :
    l < toLex (2 ^ 64 - 1, infiniteHops) :=
  hl.trans_lt (Prod.Lex.toLex_lt_toLex.mpr (Or.inl hc))

variable {dest : ℕ}

/-- **The labels certify the optimum** among all paths, whatever their number of hops. -/
theorem isLayering (wf : view.WellFormed) (hsource : source < view.nodeCount)
    (hbound : WithinHops hopBudget (view.nodeCount - 1))
    (lab : (system view hopBudget bans source).IsLabelling (labels st))
    (hdest : st.dist dest ≠ StrongUInt.max) (bound : ℕ) :
    (view.searchGraph bans).IsLayering view.exactIncrement (layers st) source dest bound
      (2 ^ 64 - 1) (st.dist dest).value (st.hops dest) where
  first := layers_eq_some_iff.mpr ⟨lab.start, by decide⟩
  only t c h := by
    obtain ⟨ht, hc⟩ := layers_eq_some_iff.mp h
    rcases exists_predecessor lab ht (lt_top_of_lt ht.le hc) with ⟨rfl, -⟩ | ⟨_, _, _, -, -, hpos, -⟩
    · rfl
    · omega
  produced k t c h := by
    obtain ⟨ht, hc⟩ := layers_eq_some_iff.mp h
    rcases exists_predecessor lab ht (lt_top_of_lt ht.le hc) with
      ⟨-, -, h0⟩ | ⟨s, e, c', hs, -, -, he, htar, rfl⟩
    · omega
    · exact ⟨s, e, c', layers_eq_some_iff.mpr ⟨hs, by omega⟩, he, htar, rfl⟩
  optimum := layers_eq_some_iff.mpr ⟨rfl, ne_max_iff.mp hdest⟩
  least es hes hf _ hc := by
    have hle := le_of_walk lab wf hsource hbound hes hc
    rw [PlanningView.searchGraph_finish] at hf
    rw [hf] at hle
    exact Prod.Lex.toLex_le_toLex.mp hle
  exact es hes hf hc hl i hi := by
    rw [PlanningView.searchGraph_finish] at hf ⊢
    have hcap := ne_max_iff.mp hdest
    have hsplit : view.pathWeight (es.take i) + view.pathWeight (es.drop i) = (st.dist dest).value := by
      rw [← hc, PlanningView.pathWeight, PlanningView.pathWeight, ← weight_append,
        List.take_append_drop]
    have htake : (es.take i).length = i := by simp [hl, hi]
    have hle := le_of_walk lab wf hsource hbound (hes.take i) (by omega)
    refine layers_eq_some_iff.mpr ⟨?_, by unfold PlanningView.pathWeight at hsplit; omega⟩
    rcases hle.lt_or_eq with hlt | he
    · -- a better path to the node would give a better path to the destination
      obtain ⟨⟨c, h⟩, hd⟩ := toLex.surjective (labels st (view.graph.finish source (es.take i)))
      have hlt' := hlt
      rw [← hd, Prod.Lex.toLex_lt_toLex] at hlt'
      obtain ⟨q, hq, hqf, rfl, rfl⟩ := exists_walk lab hd.symm (lt_top_of_lt hle (by omega))
      have hdrop := hes.drop i
      rw [PlanningView.searchGraph_finish, ← hqf] at hdrop
      have hwalk : (view.searchGraph bans).IsWalk source (q ++ es.drop i) := by
        rw [isWalk_append, PlanningView.searchGraph_finish]
        exact ⟨hq, hdrop⟩
      have hw : view.pathWeight (q ++ es.drop i) =
          view.pathWeight q + view.pathWeight (es.drop i) := weight_append
      have hbest := le_of_walk lab wf hsource hbound hwalk (by omega)
      rw [finish_append, hqf, finish_take_drop, hf, labels, label, Prod.Lex.toLex_le_toLex, hw,
        List.length_append, List.length_drop] at hbest
      omega
    · rw [he, htake]
      rfl

/-- A node that is flagged is labelled. -/
theorem ne_max_of_canReach (hdest : st.dist dest ≠ StrongUInt.max) {levels u : ℕ}
    (h : plainCanReach view bans st.dist st.hops dest levels u = true) :
    st.dist u ≠ StrongUInt.max := by
  induction levels with
  | zero =>
    rw [plainCanReach, decide_eq_true_eq] at h
    exact h ▸ hdest
  | succ levels ih =>
    rw [plainCanReach] at h
    split_ifs at h with hb
    · exact hb.2.1
    · exact ih h

variable (bans) in
/-- **The test of an entry** is tightness with reachability, once the flags of the next hop count
are right. -/
theorem plainStep_iff (k n : ℕ) {reach : ℕ → Bool} {hops u : ℕ} (hu : layers st hops u ≠ none)
    (hmax : ∀ t, reach t = true → st.dist t ≠ StrongUInt.max)
    (hreach : ∀ t, layers st (hops + 1) t ≠ none → (reach t = true ↔
      (view.searchGraph bans).Reaches view.exactIncrement (layers st) dest n (hops + 1) t)) :
    plainStep view bans st.dist st.hops reach u k = true ↔ view.allowed bans k = true ∧
      (view.searchGraph bans).IsTightEdge view.exactIncrement (layers st) hops u k ∧
      (view.searchGraph bans).Reaches view.exactIncrement (layers st) dest n (hops + 1)
        (view.adjacencyAt k).target := by
  obtain ⟨c, hc⟩ := Option.ne_none_iff_exists'.mp hu
  obtain ⟨hlab, -⟩ := layers_eq_some_iff.mp hc
  obtain ⟨hd, hh⟩ := Prod.mk.inj (toLex.injective hlab)
  simp only [plainStep, Bool.and_eq_true, decide_eq_true_eq, carriesCost_iff, hh, hd, and_assoc]
  constructor
  · rintro ⟨hal, hhops, hr, hcost⟩
    have ht : layers st (hops + 1) (view.adjacencyAt k).target = some (c + view.exactIncrement k) := by
      rw [layers, if_pos ⟨hhops, hmax _ hr⟩, hcost]
    exact ⟨hal, ⟨c, hc, ht⟩, (hreach _ (Option.ne_none_iff_exists'.mpr ⟨_, ht⟩)).mp hr⟩
  · rintro ⟨hal, ⟨c', hc', ht⟩, hr⟩
    obtain rfl : c = c' := Option.some.inj (hc.symm.trans hc')
    have hlab' := (layers_eq_some_iff.mp ht).1
    obtain ⟨hd', hh'⟩ := Prod.mk.inj (toLex.injective hlab')
    exact ⟨hal, hh', (hreach _ (Option.ne_none_iff_exists'.mpr ⟨_, ht⟩)).mpr hr, hd'.symm⟩

/-- **The flags** of a node whose hop count has been processed tell whether it reaches the
destination. -/
theorem canReach_iff (hdest : st.dist dest ≠ StrongUInt.max) (hn : ∀ h u, layers st h u ≠ none →
    u < view.nodeCount) {levels hops u : ℕ} (hu : layers st hops u ≠ none)
    (hlo : st.hops dest ≤ hops + levels) (hhi : hops ≤ st.hops dest) :
    plainCanReach view bans st.dist st.hops dest levels u = true ↔
      (view.searchGraph bans).Reaches view.exactIncrement (layers st) dest (st.hops dest - hops)
        hops u := by
  induction levels generalizing hops u with
  | zero =>
    obtain rfl : hops = st.hops dest := by omega
    rw [Nat.sub_self, reaches_zero, plainCanReach, decide_eq_true_eq]
  | succ levels ih =>
    obtain ⟨c, hc⟩ := Option.ne_none_iff_exists'.mp hu
    obtain ⟨hlab, hcap⟩ := layers_eq_some_iff.mp hc
    obtain ⟨hd, hh⟩ := Prod.mk.inj (toLex.injective hlab)
    rw [plainCanReach]
    by_cases hlevel : hops + (levels + 1) = st.hops dest
    · have hbucket : u < view.nodeCount ∧ st.dist u ≠ StrongUInt.max ∧
          st.hops u + (levels + 1) = st.hops dest :=
        ⟨hn hops u hu, ne_max_iff.mpr (hd ▸ hcap), by rw [hh]; exact hlevel⟩
      rw [if_pos hbucket, List.any_eq_true, show st.hops dest - hops = levels + 1 by omega,
        reaches_succ]
      have hstep := fun k => plainStep_iff bans k levels hu
        (fun t ht => ne_max_of_canReach hdest ht) fun t ht => by
          rw [ih ht (by omega) (by omega), show st.hops dest - (hops + 1) = levels by omega]
      constructor
      · rintro ⟨k, hk, hs⟩
        obtain ⟨hal, ht, hr⟩ := (hstep k).mp hs
        exact ⟨k, PlanningView.mem_searchGraph_out.mpr ⟨hk, hal⟩, ht, hr⟩
      · rintro ⟨k, hk, ht, hr⟩
        obtain ⟨hk, hal⟩ := PlanningView.mem_searchGraph_out.mp hk
        exact ⟨k, hk, (hstep k).mpr ⟨hal, ht, hr⟩⟩
    · rw [if_neg fun hb => hlevel (by rw [← hb.2.2, hh])]
      exact ih hu (by omega) hhi

/-- **Reconstruction** finds nothing exactly when the destination has no finite label, and else
follows the greedy walk of the labels. -/
theorem plainReconstruct_spec (wf : view.WellFormed) (hsource : source < view.nodeCount)
    (hbound : WithinHops hopBudget (view.nodeCount - 1))
    (lab : (system view hopBudget bans source).IsLabelling (labels st)) :
    st.dist dest = StrongUInt.max ∧ (plainReconstruct view bans source dest st).found = false ∨
    st.dist dest ≠ StrongUInt.max ∧ (plainReconstruct view bans source dest st).found = true ∧
      ∃ es, (view.searchGraph bans).IsGreedy view.exactIncrement (layers st) dest (st.hops dest) 0
        source es ∧
          (plainReconstruct view bans source dest st).path = view.rawPath source es := by
  unfold plainReconstruct
  by_cases hdest : st.dist dest = StrongUInt.max
  · exact Or.inl ⟨hdest, by rw [if_pos hdest]⟩
  · have hlay := isLayering wf hsource hbound lab hdest (st.hops dest)
    have hn : ∀ h u, layers st h u ≠ none → u < view.nodeCount := by
      intro h u hu
      obtain ⟨c, hc⟩ := Option.ne_none_iff_exists'.mp hu
      obtain ⟨hl, hc⟩ := layers_eq_some_iff.mp hc
      exact lt_nodeCount lab wf hsource (lt_top_of_lt hl.le hc)
    have hflag : ∀ h u, layers st h u ≠ none → h ≤ st.hops dest →
        (plainCanReach view bans st.dist st.hops dest (st.hops dest) u = true ↔
          (view.searchGraph bans).Reaches view.exactIncrement (layers st) dest
            (st.hops dest - h) h u) :=
      fun h u hu hle => canReach_iff hdest hn hu (by omega) hle
    have hstep : ∀ h u k, layers st h u ≠ none → h < st.hops dest →
        (plainStep view bans st.dist st.hops
          (plainCanReach view bans st.dist st.hops dest (st.hops dest)) u k = true ↔
            view.allowed bans k = true ∧
            (view.searchGraph bans).IsTightEdge view.exactIncrement (layers st) h u k ∧
            (view.searchGraph bans).Reaches view.exactIncrement (layers st) dest
              (st.hops dest - h - 1) (h + 1) (view.adjacencyAt k).target) :=
      fun h u k hu hlt => plainStep_iff bans k _ hu (fun t ht => ne_max_of_canReach hdest ht)
        fun t ht => by rw [hflag (h + 1) t ht (by omega), Nat.sub_sub]
    have harrived : ∀ h u, layers st h u ≠ none → h ≤ st.hops dest →
        (view.searchGraph bans).Reaches view.exactIncrement (layers st) dest (st.hops dest - h) h u →
        (decide (u = dest) = true ↔ h = st.hops dest) := by
      intro h u hu hle hr
      rw [decide_eq_true_eq]
      constructor
      · rintro rfl
        obtain ⟨c, hc⟩ := Option.ne_none_iff_exists'.mp hu
        exact (Prod.mk.inj (toLex.injective (layers_eq_some_iff.mp hc).1)).2.symm
      · rintro rfl
        rw [Nat.sub_self] at hr
        exact reaches_zero.mp hr
    have hfirst : layers st 0 source ≠ none := Option.ne_none_iff_exists'.mpr ⟨_, hlay.first⟩
    obtain ⟨es, hes, hrec⟩ :=
      reconstruct_spec hstep harrived (Nat.zero_add _) hfirst hlay.reaches ⟨[source], []⟩
    have hreach := (hflag 0 source hfirst (Nat.zero_le _)).mpr hlay.reaches
    refine Or.inr ⟨hdest, ?_⟩
    rw [if_neg hdest]
    simp only [hreach, Bool.not_true, Bool.false_eq_true, if_false, hrec]
    exact ⟨trivial, es, hes, by simp [PlanningView.rawPath, nodes]⟩

end Plain

variable {view hopBudget bans}

/-- **Search over nodes** with a hop bound that admits every simple path, when the budget does not
cut it off, finds the canonical path. -/
theorem plainSearch_spec (wf : view.WellFormed) {source dest : ℕ} (hsource : source < view.nodeCount)
    (hbound : WithinHops hopBudget (view.nodeCount - 1)) {work : Work}
    (hlimit : (plainSearch view hopBudget bans source dest work).1.resourceLimit = false) :
    FindsCanonical view bans source dest hopBudget
      (plainSearch view hopBudget bans source dest work).1 := by
  rcases Plain.plainSearch_cases view hopBudget bans source dest work with h | ⟨st, lab, heq⟩
  · rw [h] at hlimit
    cases hlimit
  rw [heq]
  rcases Plain.plainReconstruct_spec wf hsource hbound lab with
    ⟨hdest, hfound⟩ | ⟨hdest, hfound, es, hes, hpath⟩
  · refine .inr ⟨hfound, fun q hq => ?_⟩
    have hle := Plain.le_of_walk lab wf hsource hbound hq.isWalk_searchGraph hq.weight_lt
    rw [hq.finish, Plain.labels, label, hdest, value_max, Prod.Lex.toLex_le_toLex] at hle
    have := hq.weight_lt
    omega
  · have hlay := Plain.isLayering wf hsource hbound lab hdest
    have hcap := ne_max_iff.mp hdest
    refine .inl ⟨hfound, es, hpath, ?_⟩
    refine isCanonicalPath_of_isGreedy wf (hlay (view.nodeCount ⊔ st.hops dest)) hes hcap
      le_sup_right (fun hsimple => ?_) fun q hq => ?_
    · have hlen := wf.length_lt_of_isSimple hsource
        (PlanningView.isWalk_searchGraph.mp hes.isTightWalk.isWalk).1 hsimple
      rw [hes.length_eq] at hlen
      exact hbound.imp id fun hle => by omega
    · exact (wf.length_lt_of_isSimple hsource hq.isWalk hq.isSimple).le.trans le_sup_left

end PathPlanner
