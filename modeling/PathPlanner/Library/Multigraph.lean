import Mathlib.Data.List.Lex
import Mathlib.Data.List.Nodup
import Mathlib.Data.Prod.Lex
import Mathlib.Tactic

/-!
# Walks in directed multigraphs

A directed multigraph lists the outgoing edges of every node, and every edge has a target. Parallel
edges are different edges, so a walk is a start node with a list of edges. Simple walks visit no
node twice; every walk contains a simple one with the same ends, so a walk of least weight and then
least length is simple.

Walks are ranked by weight, length, the identities of their nodes and the identities of their
edges. The ranking of two walks with a common beginning is the ranking of their ends.

## Main definitions

* `Multigraph V E`: outgoing edges and targets
* `Multigraph.IsWalk u es`, `Multigraph.finish u es`, `Multigraph.nodes u es`
* `Multigraph.IsSimple u es`: no node occurs twice
* `Multigraph.restrict p`: the multigraph without the edges that fail `p`
* `Multigraph.Ranking`, `Multigraph.Ranking.key`: the canonical order

## Main results

* `Multigraph.exists_isSimple_sublist`: every walk contains a simple one
* `Multigraph.isSimple_of_least`: a walk of least weight, then least length, is simple
* `Multigraph.Ranking.key_append_lt_iff`: a common beginning does not change the ranking
* `Multigraph.Ranking.key_injective`: the key of a walk determines it
-/

/-- A directed multigraph. -/
structure Multigraph (V E : Type) where
  out : V → List E
  target : E → V

namespace Multigraph

variable {V E : Type} (G : Multigraph V E)

/-! ## Walks -/

/-- The edges `es` leave `u` one after the other. -/
def IsWalk : V → List E → Prop
  | _, [] => True
  | u, e :: es => e ∈ G.out u ∧ IsWalk (G.target e) es

instance instDecidableIsWalk [DecidableEq E] : ∀ (u : V) (es : List E), Decidable (G.IsWalk u es)
  | _, [] => .isTrue trivial
  | u, e :: es =>
    have := instDecidableIsWalk (G.target e) es
    inferInstanceAs (Decidable (e ∈ G.out u ∧ G.IsWalk (G.target e) es))

/-- The node where the edges end. -/
def finish : V → List E → V
  | u, [] => u
  | _, e :: es => finish (G.target e) es

/-- The nodes visited. -/
def nodes (u : V) (es : List E) : List V := u :: es.map G.target

/-- No node is visited twice. -/
def IsSimple (u : V) (es : List E) : Prop := (G.nodes u es).Nodup

instance [DecidableEq V] (u : V) (es : List E) : Decidable (G.IsSimple u es) :=
  inferInstanceAs (Decidable (List.Nodup _))

/-- The multigraph without the edges that fail `p`. -/
def restrict (p : E → Bool) : Multigraph V E where
  out u := (G.out u).filter p
  target := G.target

section Walks

variable {G} {u v : V} {e : E} {es fs : List E}

@[simp] theorem isWalk_nil : G.IsWalk u [] := trivial

@[simp] theorem isWalk_cons : G.IsWalk u (e :: es) ↔ e ∈ G.out u ∧ G.IsWalk (G.target e) es :=
  Iff.rfl

@[simp] theorem finish_nil : G.finish u [] = u := rfl

@[simp] theorem finish_cons : G.finish u (e :: es) = G.finish (G.target e) es := rfl

@[simp] theorem nodes_nil : G.nodes u [] = [u] := rfl

@[simp] theorem nodes_cons : G.nodes u (e :: es) = u :: G.nodes (G.target e) es := rfl

@[simp] theorem length_nodes : (G.nodes u es).length = es.length + 1 := by simp [nodes]

@[simp] theorem isWalk_append :
    G.IsWalk u (es ++ fs) ↔ G.IsWalk u es ∧ G.IsWalk (G.finish u es) fs := by
  induction es generalizing u with
  | nil => simp
  | cons e es ih => simp [ih, and_assoc]

@[simp] theorem finish_append : G.finish u (es ++ fs) = G.finish (G.finish u es) fs := by
  induction es generalizing u with
  | nil => rfl
  | cons e es ih => simp [ih]

theorem nodes_append : G.nodes u (es ++ fs) = G.nodes u es ++ fs.map G.target := by simp [nodes]

theorem finish_mem_nodes : G.finish u es ∈ G.nodes u es := by
  induction es generalizing u with
  | nil => simp
  | cons e es ih => exact List.mem_cons_of_mem _ ih

theorem self_mem_nodes : u ∈ G.nodes u es := List.mem_cons_self

/-- The nodes before the last one, with the last one. -/
theorem nodes_eq_dropLast_append : G.nodes u es = (G.nodes u es).dropLast ++ [G.finish u es] := by
  induction es generalizing u with
  | nil => rfl
  | cons e es ih =>
    rw [nodes_cons, finish_cons, List.dropLast_cons_of_ne_nil (by simp [nodes])]
    rw [List.cons_append, ← ih]

/-- The node at a position is where the edges before it end. -/
theorem nodes_getElem? {i : ℕ} (h : i ≤ es.length) :
    (G.nodes u es)[i]? = some (G.finish u (es.take i)) := by
  induction es generalizing u i with
  | nil =>
    obtain rfl : i = 0 := by simpa using h
    rfl
  | cons e es ih =>
    cases i with
    | zero => rfl
    | succ i => simpa using ih (by simpa using h)

theorem IsWalk.take (h : G.IsWalk u es) (i : ℕ) : G.IsWalk u (es.take i) := by
  rw [← List.take_append_drop i es, isWalk_append] at h
  exact h.1

theorem IsWalk.drop (h : G.IsWalk u es) (i : ℕ) : G.IsWalk (G.finish u (es.take i)) (es.drop i) := by
  rw [← List.take_append_drop i es, isWalk_append] at h
  exact h.2

theorem finish_take_drop (i : ℕ) :
    G.finish (G.finish u (es.take i)) (es.drop i) = G.finish u es := by
  rw [← finish_append, List.take_append_drop]

/-- Every edge of a walk leaves a node of it. -/
theorem IsWalk.exists_out (h : G.IsWalk u es) (he : e ∈ es) : ∃ v ∈ G.nodes u es, e ∈ G.out v := by
  induction es generalizing u with
  | nil => cases he
  | cons f es ih =>
    rcases List.mem_cons.mp he with rfl | he
    · exact ⟨u, self_mem_nodes, h.1⟩
    · obtain ⟨v, hv, hev⟩ := ih h.2 he
      exact ⟨v, List.mem_cons_of_mem _ hv, hev⟩

section Restrict

variable {p : E → Bool}

@[simp] theorem restrict_target : (G.restrict p).target = G.target := rfl

theorem mem_restrict_out : e ∈ (G.restrict p).out u ↔ e ∈ G.out u ∧ p e = true := List.mem_filter

@[simp] theorem restrict_finish : (G.restrict p).finish u es = G.finish u es := by
  induction es generalizing u with
  | nil => rfl
  | cons e es ih => exact ih

@[simp] theorem restrict_nodes : (G.restrict p).nodes u es = G.nodes u es := rfl

/-- **Walks of the restriction** are the walks that use no removed edge. -/
theorem isWalk_restrict : (G.restrict p).IsWalk u es ↔ G.IsWalk u es ∧ ∀ e ∈ es, p e = true := by
  induction es generalizing u with
  | nil => simp
  | cons e es ih =>
    rw [isWalk_cons, isWalk_cons, mem_restrict_out, restrict_target, ih]
    simp only [List.mem_cons, forall_eq_or_imp]
    tauto

end Restrict

/-! ## Simple walks -/

theorem isSimple_nil : G.IsSimple u [] := by simp [IsSimple]

theorem isSimple_cons :
    G.IsSimple u (e :: es) ↔ u ∉ G.nodes (G.target e) es ∧ G.IsSimple (G.target e) es :=
  List.nodup_cons

/-- A simple walk that ends where it starts is empty. -/
theorem IsSimple.eq_nil_of_finish_eq (h : G.IsSimple u es) (hf : G.finish u es = u) : es = [] := by
  cases es with
  | nil => rfl
  | cons e es => exact absurd (hf ▸ finish_mem_nodes) (isSimple_cons.mp h).1

theorem IsSimple.take (h : G.IsSimple u es) (i : ℕ) : G.IsSimple u (es.take i) := by
  refine List.Sublist.nodup ?_ h
  exact List.Sublist.cons_cons _ ((List.take_sublist i es).map _)

theorem IsSimple.drop (h : G.IsSimple u es) {i : ℕ} (hi : i ≤ es.length) :
    G.IsSimple (G.finish u (es.take i)) (es.drop i) := by
  induction es generalizing u i with
  | nil => simpa using h
  | cons e es ih =>
    cases i with
    | zero => simpa using h
    | succ i =>
      rw [isSimple_cons] at h
      simpa using ih h.2 (by simpa using hi)

/-- Two walks joined are simple exactly when both are and the second avoids the first. -/
theorem isSimple_append : G.IsSimple u (es ++ fs) ↔
    G.IsSimple u es ∧ G.IsSimple (G.finish u es) fs ∧
      ∀ f ∈ fs, G.target f ∉ (G.nodes u es).dropLast := by
  have hd : G.nodes u es = (G.nodes u es).dropLast ++ [G.finish u es] := nodes_eq_dropLast_append
  unfold IsSimple
  rw [nodes_append]
  constructor
  · intro h
    refine ⟨(List.nodup_append.mp h).1, ?_, ?_⟩
    · rw [hd, List.append_assoc] at h
      exact (List.nodup_append.mp h).2.1
    · intro f hf hmem
      refine (List.nodup_append.mp h).2.2 _ ?_ _ (List.mem_map_of_mem hf) rfl
      rw [hd]
      exact List.mem_append_left _ hmem
  · rintro ⟨hes, hfs, hav⟩
    refine List.nodup_append.mpr ⟨hes, (List.nodup_cons.mp hfs).2, ?_⟩
    rintro a ha b hb rfl
    obtain ⟨f, hf, rfl⟩ := List.mem_map.mp hb
    rw [hd] at ha
    rcases List.mem_append.mp ha with ha | ha
    · exact hav f hf ha
    · rw [List.mem_singleton] at ha
      exact (List.nodup_cons.mp hfs).1 (ha ▸ List.mem_map_of_mem hf)

/-- The nodes visited are the ends of the prefixes. -/
theorem mem_nodes_iff : v ∈ G.nodes u es ↔ ∃ ds gs, es = ds ++ gs ∧ G.finish u ds = v := by
  constructor
  · intro hv
    induction es generalizing u with
    | nil => exact ⟨[], [], rfl, (List.mem_singleton.mp hv).symm⟩
    | cons e es ih =>
      rcases List.mem_cons.mp hv with rfl | hv
      · exact ⟨[], e :: es, rfl, rfl⟩
      · obtain ⟨ds, gs, rfl, hf⟩ := ih hv
        exact ⟨e :: ds, gs, rfl, hf⟩
  · rintro ⟨ds, gs, rfl, rfl⟩
    rw [nodes_append]
    exact List.mem_append_left _ finish_mem_nodes

/-- **Every walk contains a simple one** with the same ends. -/
theorem exists_isSimple_sublist (h : G.IsWalk u es) :
    ∃ fs, fs.Sublist es ∧ G.IsWalk u fs ∧ G.finish u fs = G.finish u es ∧ G.IsSimple u fs := by
  induction es generalizing u with
  | nil => exact ⟨[], List.Sublist.refl _, trivial, rfl, isSimple_nil⟩
  | cons e es ih =>
    obtain ⟨fs, hs, hw, hf, hsim⟩ := ih h.2
    by_cases hu : u ∈ G.nodes (G.target e) fs
    · -- the walk returns to `u`: keep what follows the return
      obtain ⟨ds, gs, rfl, rfl⟩ := mem_nodes_iff.mp hu
      rw [isWalk_append] at hw
      rw [finish_append] at hf
      exact ⟨gs, ((List.sublist_append_right ds gs).trans hs).cons e, hw.2, hf,
        (isSimple_append.mp hsim).2.1⟩
    · exact ⟨e :: fs, hs.cons_cons e, ⟨h.1, hw⟩, hf, isSimple_cons.mpr ⟨hu, hsim⟩⟩

/-- A simple walk over `n` nodes has fewer than `n` edges. -/
theorem IsSimple.length_lt [DecidableEq V] (h : G.IsSimple u es) (vs : List V)
    (hvs : ∀ v ∈ G.nodes u es, v ∈ vs) : es.length < vs.length := by
  have hle : (G.nodes u es).length ≤ vs.length := (h.subperm hvs).length_le
  simpa using hle

theorem nodes_take {i : ℕ} : (G.nodes u es).take (i + 1) = G.nodes u (es.take i) := by
  simp [nodes]

/-- The nodes before a position are all but the last one of the walk up to it. -/
theorem dropLast_nodes_take {i : ℕ} (hi : i ≤ es.length) :
    (G.nodes u (es.take i)).dropLast = (G.nodes u es).take i := by
  rw [← nodes_take, List.dropLast_eq_take, List.take_take]
  congr 1
  simp [nodes, hi]

/-- **Walks of bounded length are finitely many.** -/
theorem finite_setOf_isWalk (u : V) (n : ℕ) : {es | G.IsWalk u es ∧ es.length ≤ n}.Finite := by
  induction n generalizing u with
  | zero =>
    refine (Set.finite_singleton []).subset ?_
    rintro es ⟨-, hl⟩
    exact List.length_eq_zero_iff.mp (Nat.le_zero.mp hl)
  | succ n ih =>
    -- a walk is empty, or an edge of its first node with a shorter walk
    have hcons : (⋃ e ∈ {e | e ∈ G.out u},
        List.cons e '' {es | G.IsWalk (G.target e) es ∧ es.length ≤ n}).Finite :=
      (List.finite_toSet (G.out u)).biUnion fun e _ => (ih (G.target e)).image _
    refine ((Set.finite_singleton []).union hcons).subset ?_
    rintro es ⟨hw, hl⟩
    cases es with
    | nil => exact Or.inl rfl
    | cons e es =>
      refine Or.inr (Set.mem_biUnion hw.1 ⟨es, ⟨hw.2, ?_⟩, rfl⟩)
      simpa using hl

end Walks

/-! ## Weights -/

section Weights

variable {G} {u v : V} {es fs : List E} {w : E → ℕ}

/-- The weight of a list of edges. -/
def weight (w : E → ℕ) (es : List E) : ℕ := (es.map w).sum

@[simp] theorem weight_nil : weight w [] = 0 := rfl

@[simp] theorem weight_cons {e : E} : weight w (e :: es) = w e + weight w es := by simp [weight]

@[simp] theorem weight_append : weight w (es ++ fs) = weight w es + weight w fs := by
  simp [weight]

theorem weight_le_of_sublist (h : fs.Sublist es) : weight w fs ≤ weight w es :=
  (h.map w).sum_le_sum (by simp)

/-- **A walk of least weight, then least length, is simple**: a shorter simple walk inside it would
weigh no more. -/
theorem isSimple_of_least (w : E → ℕ) (h : G.IsWalk u es)
    (hmin : ∀ fs, fs.Sublist es → G.IsWalk u fs → G.finish u fs = G.finish u es →
      weight w fs ≤ weight w es → es.length ≤ fs.length) : G.IsSimple u es := by
  obtain ⟨fs, hs, hw, hf, hsim⟩ := exists_isSimple_sublist h
  have hle := hmin fs hs hw hf (weight_le_of_sublist hs)
  rwa [hs.eq_of_length_le hle] at hsim

end Weights

/-! ## The canonical order -/

/-- What walks are ranked by. -/
structure Ranking (V E Κ Λ : Type) where
  weight : E → ℕ
  node : V → Κ
  edge : E → Λ

namespace Ranking

variable {G} {Κ Λ : Type} [LinearOrder Κ] [LinearOrder Λ] (R : Ranking V E Κ Λ)
  {u v : V} {ds es fs : List E}

variable (G) in
/-- The canonical key of a walk: weight, length, node identities, edge identities. -/
def key (u : V) (es : List E) : ℕ ×ₗ ℕ ×ₗ List Κ ×ₗ List Λ :=
  toLex (Multigraph.weight R.weight es, toLex (es.length,
    toLex ((G.nodes u es).map R.node, es.map R.edge)))

variable {R}

theorem key_lt_iff : R.key G u es < R.key G v fs ↔
    Multigraph.weight R.weight es < Multigraph.weight R.weight fs ∨
      Multigraph.weight R.weight es = Multigraph.weight R.weight fs ∧
        (es.length < fs.length ∨ es.length = fs.length ∧
          ((G.nodes u es).map R.node < (G.nodes v fs).map R.node ∨
            (G.nodes u es).map R.node = (G.nodes v fs).map R.node ∧
              es.map R.edge < fs.map R.edge)) := by
  simp only [key, Prod.Lex.toLex_lt_toLex]

omit [LinearOrder Κ] [LinearOrder Λ] in
/-- Edges are determined by their identities where these are unique. -/
theorem eq_of_map_edge_eq (hes : ∀ e ∈ es, ∀ f ∈ fs, R.edge e = R.edge f → e = f)
    (h : es.map R.edge = fs.map R.edge) : es = fs := by
  induction es generalizing fs with
  | nil => exact (List.map_eq_nil_iff.mp h.symm).symm
  | cons e es ih =>
    cases fs with
    | nil => cases h
    | cons f fs =>
      rw [List.map_cons, List.map_cons, List.cons.injEq] at h
      rw [hes e List.mem_cons_self f List.mem_cons_self h.1,
        ih (fun a ha b hb => hes a (List.mem_cons_of_mem _ ha) b (List.mem_cons_of_mem _ hb)) h.2]

omit [LinearOrder Κ] [LinearOrder Λ] in
/-- **The key of a walk determines it** where edge identities are unique. -/
theorem key_injective (hes : ∀ e ∈ es, ∀ f ∈ fs, R.edge e = R.edge f → e = f)
    (h : R.key G u es = R.key G v fs) : es = fs :=
  eq_of_map_edge_eq hes (congrArg (fun k => (ofLex (ofLex (ofLex k).2).2).2) h)

/-- A common beginning of two lists does not change their order. -/
theorem append_lt_append_iff {α : Type} [LinearOrder α] {xs ys zs : List α} :
    xs ++ ys < xs ++ zs ↔ ys < zs := by
  induction xs with
  | nil => rfl
  | cons x xs ih =>
    rw [List.cons_append, List.cons_append, List.cons_lt_cons_iff, ih]
    simp

/-- **A common beginning** does not change the ranking of two walks. -/
theorem key_append_lt_iff : R.key G u (ds ++ es) < R.key G u (ds ++ fs) ↔
    R.key G (G.finish u ds) es < R.key G (G.finish u ds) fs := by
  have hn (gs : List E) : (G.nodes u (ds ++ gs)).map R.node =
      (G.nodes u ds).dropLast.map R.node ++ (G.nodes (G.finish u ds) gs).map R.node := by
    rw [nodes_append]
    conv_lhs => rw [nodes_eq_dropLast_append]
    simp [nodes]
  rw [key_lt_iff, key_lt_iff, hn, hn, List.map_append, List.map_append, append_lt_append_iff,
    append_lt_append_iff, List.append_cancel_left_eq]
  simp

theorem key_append_le_iff : R.key G u (ds ++ es) ≤ R.key G u (ds ++ fs) ↔
    R.key G (G.finish u ds) es ≤ R.key G (G.finish u ds) fs := by
  rw [← not_lt, ← not_lt, key_append_lt_iff]

end Ranking

end Multigraph
