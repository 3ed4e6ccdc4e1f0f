import PathPlanner.Library.Multigraph

/-!
# Reconstruction along tight edges

Costs are assigned to nodes layer by layer, where a layer is a number of edges from the start. An
edge is tight when it carries the cost of a node of one layer to that of its target in the next.
Every tight walk from the start to the optimal layer of the destination weighs the optimum, and
every optimal walk is tight. When the outgoing edges of each node are listed in the order of their
targets and identities, the walk that always takes the first tight edge from which the destination
is still reached is therefore the least of all walks in the canonical order.

## Main definitions

* `Multigraph.IsTightEdge`, `Multigraph.IsTightWalk`: edges and walks that follow the costs
* `Multigraph.Reaches`: the destination is reached by a tight walk of given length
* `Multigraph.IsGreedy`: always the first tight edge that still reaches the destination
* `Multigraph.IsLayering`: layered costs that certify an optimum

## Main results

* `Multigraph.IsGreedy.key_le`: the greedy walk ranks first among the tight walks
* `Multigraph.IsLayering.reaches`: the optimum is reached by a tight walk
* `Multigraph.IsLayering.key_le`: the greedy walk ranks first among all walks within the bounds
-/

namespace Multigraph

variable {V E Κ Λ : Type} (G : Multigraph V E) (w : E → ℕ) (lab : ℕ → V → Option ℕ)

/-- The edge carries the cost of `u` at layer `k` to its target at layer `k + 1`. -/
def IsTightEdge (k : ℕ) (u : V) (e : E) : Prop :=
  ∃ c, lab k u = some c ∧ lab (k + 1) (G.target e) = some (c + w e)

/-- A walk of tight edges, from layer `k` on. -/
def IsTightWalk : ℕ → V → List E → Prop
  | _, _, [] => True
  | k, u, e :: es => e ∈ G.out u ∧ G.IsTightEdge w lab k u e ∧ IsTightWalk (k + 1) (G.target e) es

/-- A tight walk of `n` edges leads from `u` at layer `k` to `dest`. -/
def Reaches (dest : V) (n k : ℕ) (u : V) : Prop :=
  ∃ es, G.IsTightWalk w lab k u es ∧ es.length = n ∧ G.finish u es = dest

/-- The first edge of each node that is tight and from whose target `dest` is still reached. -/
inductive IsGreedy (dest : V) : ℕ → ℕ → V → List E → Prop
  | nil (k : ℕ) : IsGreedy dest 0 k dest []
  | cons {n k : ℕ} {u : V} {e : E} {es as bs : List E} (hout : G.out u = as ++ e :: bs)
      (htight : G.IsTightEdge w lab k u e) (hreach : G.Reaches w lab dest n (k + 1) (G.target e))
      (hfirst : ∀ a ∈ as, ¬ (G.IsTightEdge w lab k u a ∧
        G.Reaches w lab dest n (k + 1) (G.target a)))
      (hrest : IsGreedy dest n (k + 1) (G.target e) es) : IsGreedy dest (n + 1) k u (e :: es)

/-- Layered costs that certify the optimum `(cost, hops)` of the walks from `start` to `dest` of at
most `bound` edges and a weight below `cap`: every cost is that of a walk, no walk is better, and
every optimal walk follows the costs. -/
structure IsLayering (start dest : V) (bound cap cost hops : ℕ) : Prop where
  first : lab 0 start = some 0
  only : ∀ t c, lab 0 t = some c → t = start
  produced : ∀ k t c, lab (k + 1) t = some c →
    ∃ u e c', lab k u = some c' ∧ e ∈ G.out u ∧ G.target e = t ∧ c = c' + w e
  optimum : lab hops dest = some cost
  least : ∀ es, G.IsWalk start es → G.finish start es = dest → es.length ≤ bound →
    weight w es < cap → cost < weight w es ∨ cost = weight w es ∧ hops ≤ es.length
  exact : ∀ es, G.IsWalk start es → G.finish start es = dest → weight w es = cost →
    es.length = hops → ∀ i ≤ hops,
      lab i (G.finish start (es.take i)) = some (weight w (es.take i))

section Walks

variable {G w lab} {dest u : V} {k n c : ℕ} {e : E} {es fs : List E}

theorem isTightWalk_cons : G.IsTightWalk w lab k u (e :: es) ↔
    e ∈ G.out u ∧ G.IsTightEdge w lab k u e ∧ G.IsTightWalk w lab (k + 1) (G.target e) es :=
  Iff.rfl

theorem isTightWalk_snoc : G.IsTightWalk w lab k u (es ++ [e]) ↔ G.IsTightWalk w lab k u es ∧
    e ∈ G.out (G.finish u es) ∧ G.IsTightEdge w lab (k + es.length) (G.finish u es) e := by
  induction es generalizing k u with
  | nil => simp [IsTightWalk]
  | cons f es ih =>
    simp only [List.cons_append, isTightWalk_cons, ih, finish_cons, List.length_cons, and_assoc]
    rw [show k + 1 + es.length = k + (es.length + 1) by omega]

theorem IsTightWalk.isWalk (h : G.IsTightWalk w lab k u es) : G.IsWalk u es := by
  induction es generalizing k u with
  | nil => trivial
  | cons e es ih => exact ⟨h.1, ih h.2.2⟩

/-- A tight walk carries the cost of its start to its end. -/
theorem IsTightWalk.lab_finish (h : G.IsTightWalk w lab k u es) (hc : lab k u = some c) :
    lab (k + es.length) (G.finish u es) = some (c + weight w es) := by
  induction es generalizing k u c with
  | nil => simpa using hc
  | cons e es ih =>
    obtain ⟨-, ⟨c', hc', ht⟩, hrest⟩ := h
    obtain rfl : c = c' := Option.some.inj (hc.symm.trans hc')
    have := ih hrest ht
    rw [show k + 1 + es.length = k + (es.length + 1) by omega] at this
    rw [List.length_cons, finish_cons, weight_cons, this, add_assoc]

@[simp] theorem reaches_zero : G.Reaches w lab dest 0 k u ↔ u = dest := by
  constructor
  · rintro ⟨es, -, hl, hf⟩
    obtain rfl := List.length_eq_zero_iff.mp hl
    exact hf
  · rintro rfl
    exact ⟨[], trivial, rfl, rfl⟩

/-- **One backward step**: the destination is reached through a tight edge. -/
theorem reaches_succ : G.Reaches w lab dest (n + 1) k u ↔
    ∃ e ∈ G.out u, G.IsTightEdge w lab k u e ∧ G.Reaches w lab dest n (k + 1) (G.target e) := by
  constructor
  · rintro ⟨es, ht, hl, hf⟩
    cases es with
    | nil => simp at hl
    | cons e es => exact ⟨e, ht.1, ht.2.1, es, ht.2.2, by simpa using hl, hf⟩
  · rintro ⟨e, he, ht, es, hes, hl, hf⟩
    exact ⟨e :: es, ⟨he, ht, hes⟩, by simp [hl], hf⟩

namespace IsGreedy

theorem isTightWalk (h : G.IsGreedy w lab dest n k u es) : G.IsTightWalk w lab k u es := by
  induction h with
  | nil => trivial
  | cons hout htight _ _ _ ih => exact ⟨by simp [hout], htight, ih⟩

theorem length_eq (h : G.IsGreedy w lab dest n k u es) : es.length = n := by
  induction h with
  | nil => rfl
  | cons _ _ _ _ _ ih => simp [ih]

theorem finish_eq (h : G.IsGreedy w lab dest n k u es) : G.finish u es = dest := by
  induction h with
  | nil => rfl
  | cons _ _ _ _ _ ih => exact ih

end IsGreedy

end Walks

section Canonical

variable [LinearOrder Κ] [LinearOrder Λ] (R : Ranking V E Κ Λ)

/-- The outgoing edges of every node are listed by the identity of the target, then of the edge. -/
def SortedOut : Prop :=
  ∀ u, (G.out u).Pairwise fun e f =>
    toLex (R.node (G.target e), R.edge e) < toLex (R.node (G.target f), R.edge f)

/-- The targets of edges are told apart by their identities. -/
def InjectiveTargets : Prop :=
  ∀ u v e f, e ∈ G.out u → f ∈ G.out v → R.node (G.target e) = R.node (G.target f) →
    G.target e = G.target f

variable {G R} {lab} {dest start u : V} {k n c bound cap cost hops : ℕ} {es fs : List E}

/-- The nodes, then the edges, of the greedy walk come first. -/
theorem IsGreedy.sequence_le (hsorted : G.SortedOut R) (hinj : G.InjectiveTargets R)
    (h : G.IsGreedy R.weight lab dest n k u es) (ht : G.IsTightWalk R.weight lab k u fs)
    (hl : fs.length = n) (hf : G.finish u fs = dest) :
    toLex ((G.nodes u es).map R.node, es.map R.edge) ≤
      toLex ((G.nodes u fs).map R.node, fs.map R.edge) := by
  induction h generalizing fs with
  | nil k =>
    obtain rfl := List.length_eq_zero_iff.mp hl
    exact le_rfl
  | @cons n k u e es as bs hout htight hreach hfirst hrest ih =>
    cases fs with
    | nil => simp at hl
    | cons f fs =>
      have hf' : f ∈ as ++ e :: bs := hout ▸ ht.1
      have hl' : fs.length = n := by simpa using hl
      rw [Prod.Lex.toLex_le_toLex, nodes_cons, nodes_cons, List.map_cons, List.map_cons,
        List.map_cons, List.map_cons, List.cons_lt_cons_iff, List.cons.injEq]
      -- the first edge of the greedy walk is listed no later than that of the other one
      have hord : toLex (R.node (G.target e), R.edge e) ≤
          toLex (R.node (G.target f), R.edge f) := by
        rcases List.mem_append.mp hf' with hmem | hmem
        · exact absurd ⟨ht.2.1, fs, ht.2.2, hl', hf⟩ (hfirst f hmem)
        · rcases List.mem_cons.mp hmem with rfl | hmem
          · exact le_rfl
          · have hp := hsorted u
            rw [hout, List.pairwise_append, List.pairwise_cons] at hp
            exact (hp.2.1.1 f hmem).le
      rcases Prod.Lex.toLex_le_toLex.mp hord with hnode | ⟨hnode, hedge⟩
      · exact Or.inl (Or.inr ⟨rfl, List.Lex.rel hnode⟩)
      · -- the same node next: compare the rest of the walks, then the edges to it
        have htar : G.target e = G.target f := hinj u u e f (by simp [hout]) ht.1 hnode
        have hrec := ih (htar ▸ ht.2.2) hl' (by rw [htar]; exact hf)
        rw [← htar]
        rcases Prod.Lex.toLex_le_toLex.mp hrec with hlt | ⟨heq, hle⟩
        · exact Or.inl (Or.inr ⟨rfl, hlt⟩)
        · refine Or.inr ⟨⟨rfl, heq⟩, ?_⟩
          rw [← not_lt, List.cons_lt_cons_iff]
          rintro (hlt | ⟨-, hlt⟩)
          · exact absurd hlt (not_lt.mpr hedge)
          · exact absurd hlt (not_lt.mpr hle)

/-- **The greedy walk ranks first** among the tight walks of its length. -/
theorem IsGreedy.key_le (hsorted : G.SortedOut R) (hinj : G.InjectiveTargets R)
    (h : G.IsGreedy R.weight lab dest n k u es) (hc : lab k u = some c)
    (ht : G.IsTightWalk R.weight lab k u fs) (hl : fs.length = n) (hf : G.finish u fs = dest) :
    R.key G u es ≤ R.key G u fs := by
  have hw : Multigraph.weight R.weight es = Multigraph.weight R.weight fs := by
    have hes := h.isTightWalk.lab_finish hc
    have hfs := ht.lab_finish hc
    rw [h.finish_eq, h.length_eq] at hes
    rw [hf, hl, hes] at hfs
    have := Option.some.inj hfs
    omega
  have hlen : es.length = fs.length := h.length_eq.trans hl.symm
  have hseq := h.sequence_le hsorted hinj ht hl hf
  simp only [Ranking.key, hw, hlen, Prod.Lex.toLex_le_toLex, lt_irrefl, false_or, true_and]
  exact Prod.Lex.toLex_le_toLex.mp hseq

namespace IsLayering

variable {w : E → ℕ}

/-- Every cost is carried by a tight walk from the start. -/
theorem exists_isTightWalk (L : G.IsLayering w lab start dest bound cap cost hops) {t : V}
    (h : lab k t = some c) : ∃ es, G.IsTightWalk w lab 0 start es ∧ es.length = k ∧
      G.finish start es = t := by
  induction k generalizing t c with
  | zero => exact ⟨[], trivial, rfl, (L.only t c h).symm⟩
  | succ k ih =>
    obtain ⟨u, e, c', hc', he, rfl, rfl⟩ := L.produced k t c h
    obtain ⟨es, hes, hl, rfl⟩ := ih hc'
    refine ⟨es ++ [e], isTightWalk_snoc.mpr ⟨hes, he, c', ?_, ?_⟩, by simp [hl], by simp⟩
    · rw [hl, zero_add]
      exact hc'
    · rw [hl, zero_add]
      exact h

/-- **The optimum is reached** by a tight walk. -/
theorem reaches (L : G.IsLayering w lab start dest bound cap cost hops) :
    G.Reaches w lab dest hops 0 start := L.exists_isTightWalk L.optimum

/-- Every optimal walk is tight. -/
theorem isTightWalk_of_optimal (L : G.IsLayering w lab start dest bound cap cost hops)
    (hw : G.IsWalk start es) (hf : G.finish start es = dest) (hc : weight w es = cost)
    (hl : es.length = hops) : G.IsTightWalk w lab 0 start es := by
  have hex := L.exact es hw hf hc hl
  have hall : ∀ ds gs, es = ds ++ gs → G.IsTightWalk w lab ds.length (G.finish start ds) gs := by
    intro ds gs hes
    induction gs generalizing ds with
    | nil => trivial
    | cons g gs ih =>
      have hw' := hw
      rw [hes, isWalk_append] at hw'
      have hlen : ds.length + 1 ≤ hops := by
        rw [← hl, hes]
        simp
      have h₀ := hex ds.length (by omega)
      have h₁ := hex (ds.length + 1) hlen
      have ht₀ : es.take ds.length = ds := by simp [hes]
      have ht₁ : es.take (ds.length + 1) = ds ++ [g] := by
        rw [hes, List.take_length_add_append]
        rfl
      rw [ht₀] at h₀
      rw [ht₁, finish_append, weight_append] at h₁
      have hrest := ih (ds ++ [g]) (by simp [hes])
      rw [List.length_append, finish_append] at hrest
      refine ⟨hw'.2.1, ⟨weight w ds, h₀, ?_⟩, hrest⟩
      simpa using h₁
  exact hall [] es rfl

/-- The greedy walk from the start weighs the optimum. -/
theorem weight_eq (L : G.IsLayering w lab start dest bound cap cost hops)
    (h : G.IsGreedy w lab dest hops 0 start es) : weight w es = cost := by
  have hlab := h.isTightWalk.lab_finish L.first
  rw [h.finish_eq, h.length_eq, zero_add, zero_add, L.optimum] at hlab
  exact (Option.some.inj hlab).symm

/-- **The greedy walk ranks first** among the walks within the bounds. -/
theorem key_le (hsorted : G.SortedOut R) (hinj : G.InjectiveTargets R)
    (L : G.IsLayering R.weight lab start dest bound cap cost hops)
    (h : G.IsGreedy R.weight lab dest hops 0 start es) (hw : G.IsWalk start fs)
    (hf : G.finish start fs = dest) (hb : fs.length ≤ bound)
    (hcap : weight R.weight fs < cap) : R.key G start es ≤ R.key G start fs := by
  have hes := L.weight_eq h
  rcases L.least fs hw hf hb hcap with hlt | ⟨hc, hle⟩
  · exact (Ranking.key_lt_iff.mpr (Or.inl (hes.trans_lt hlt))).le
  · rcases hle.lt_or_eq with hlt | hl
    · exact (Ranking.key_lt_iff.mpr
        (Or.inr ⟨hes.trans hc, Or.inl (h.length_eq.trans_lt hlt)⟩)).le
    · exact h.key_le hsorted hinj L.first (L.isTightWalk_of_optimal hw hf hc.symm hl.symm)
        hl.symm hf

/-- The greedy walk from the start visits no node twice. -/
theorem isSimple (L : G.IsLayering w lab start dest bound cap cost hops)
    (h : G.IsGreedy w lab dest hops 0 start es) (hb : hops ≤ bound) (hcap : cost < cap) :
    G.IsSimple start es := by
  refine isSimple_of_least w h.isTightWalk.isWalk fun fs hs hw hf hle => ?_
  have hes := L.weight_eq h
  have hlen := hs.length_le
  rw [h.length_eq] at hlen ⊢
  rcases L.least fs hw (hf.trans h.finish_eq) (by omega) (by omega) with hlt | ⟨-, hl⟩
  · omega
  · exact hl

end IsLayering

end Canonical

end Multigraph
