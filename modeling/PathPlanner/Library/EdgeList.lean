import Mathlib.Data.List.Nodup
import Mathlib.Data.List.ProdSigma
import Mathlib.Logic.Relation
import Mathlib.Tactic

/-!
# Directed graphs as lists of edges

A directed graph is given by the list of its edges, each the pair of the node that it leaves and the
node that it enters. An edge that is listed twice is a parallel edge.

## Main definitions

* `Reaches es u v`: the edges lead from one node to another
* `path l`: the edges from each node of a list to the next one
* `degree es v`: the number of edge ends at a node

## Main results

* `reaches_path`: a path leads from its first node to its last one
* `not_reaches`: a set that no edge leaves is not left
* `isProper_path`, `isProper_product`: paths and complete bipartite graphs are simple
-/

namespace EdgeList

variable {V : Type*} {es es' : List (V × V)} {u v : V}

/-- The edges lead from one node to another. -/
def Reaches (es : List (V × V)) : V → V → Prop := Relation.ReflTransGen fun u v => (u, v) ∈ es

/-- No edge is a loop, and none is listed twice. -/
structure IsProper (es : List (V × V)) : Prop where
  ne : ∀ e ∈ es, e.1 ≠ e.2
  nodup : es.Nodup

/-- The edges from each node of a list to the next one. -/
def path (l : List V) : List (V × V) := l.zip l.tail

/-- The number of edge ends at a node. -/
def degree [DecidableEq V] (es : List (V × V)) (v : V) : ℕ :=
  es.countP (·.1 = v) + es.countP (·.2 = v)

/-! ## Reaching -/

theorem Reaches.mono (h : Reaches es u v) (hsub : es ⊆ es') : Reaches es' u v :=
  Relation.ReflTransGen.mono (fun _ _ hmem => hsub hmem) _ _ h

theorem Reaches.trans {w : V} (h : Reaches es u v) (h' : Reaches es v w) : Reaches es u w :=
  Relation.ReflTransGen.trans h h'

theorem reaches_of_mem (h : (u, v) ∈ es) : Reaches es u v := Relation.ReflTransGen.single h

/-- A set that no edge leaves is not left. -/
theorem not_reaches {S : Set V} (hclosed : ∀ e ∈ es, e.1 ∈ S → e.2 ∈ S) (hu : u ∈ S) (hv : v ∉ S) :
    ¬ Reaches es u v := by
  intro h
  have hstays {w : V} (h : Reaches es u w) : w ∈ S := by
    induction h with
    | refl => exact hu
    | tail _ hstep ih => exact hclosed _ hstep ih
  exact hv (hstays h)

/-- Numbered nodes, each of which leads to the next one. -/
theorem reaches_of_steps {es : List (ℕ × ℕ)} {a b : ℕ} (hle : a ≤ b)
    (hsteps : ∀ i, a ≤ i → i < b → (i, i + 1) ∈ es) : Reaches es a b := by
  induction b, hle using Nat.le_induction with
  | base => exact Relation.ReflTransGen.refl
  | succ b hle ih =>
    have hbefore := ih fun i ha hb => hsteps i ha (hb.trans (Nat.lt_succ_self b))
    exact hbefore.trans (reaches_of_mem (hsteps b hle (Nat.lt_succ_self b)))

/-! ## Paths -/

theorem map_snd_path (l : List V) : (path l).map Prod.snd = l.tail :=
  List.map_snd_zip (by rw [List.length_tail]; omega)

theorem mem_of_mem_path {l : List V} {e : V × V} (h : e ∈ path l) : e.1 ∈ l ∧ e.2 ∈ l := by
  obtain ⟨hfirst, hsecond⟩ := List.of_mem_zip (a := e.1) (b := e.2) h
  exact ⟨hfirst, List.mem_of_mem_tail hsecond⟩

@[simp] theorem path_cons_cons (u v : V) (l : List V) :
    path (u :: v :: l) = (u, v) :: path (v :: l) := rfl

/-- A path leads from its first node to its last one. -/
theorem reaches_path (u : V) (l : List V) :
    Reaches (path (u :: l)) u ((u :: l).getLast (List.cons_ne_nil u l)) := by
  induction l generalizing u with
  | nil => exact Relation.ReflTransGen.refl
  | cons v l ih =>
    rw [path_cons_cons, List.getLast_cons (List.cons_ne_nil v l)]
    exact (reaches_of_mem List.mem_cons_self).trans ((ih v).mono (List.subset_cons_self _ _))

/-- A path without repetition is simple. -/
theorem isProper_path {l : List V} (h : l.Nodup) : IsProper (path l) where
  ne := by
    induction l with
    | nil => exact fun e he => absurd he List.not_mem_nil
    | cons u l ih =>
      cases l with
      | nil => exact fun e he => absurd he List.not_mem_nil
      | cons v l =>
        obtain ⟨hu, hrest⟩ := List.nodup_cons.mp h
        rw [path_cons_cons]
        refine List.forall_mem_cons.mpr ⟨fun heq => hu ?_, ih hrest⟩
        have heq : u = v := heq
        exact heq ▸ List.mem_cons_self
  nodup := by
    refine List.Nodup.of_map Prod.snd ?_
    rw [map_snd_path]
    exact h.sublist (List.tail_sublist l)

/-! ## Complete bipartite graphs -/

/-- Each node of one list leads to each node of another one. -/
theorem isProper_product {us vs : List V} (hus : us.Nodup) (hvs : vs.Nodup)
    (hdisjoint : us.Disjoint vs) : IsProper (us ×ˢ vs) where
  ne e he heq := by
    obtain ⟨hu, hv⟩ := List.mem_product.mp he
    exact hdisjoint hu (heq ▸ hv)
  nodup := hus.product hvs

/-! ## Two graphs -/

theorem isProper_append (h : IsProper es) (h' : IsProper es') (hdisjoint : es.Disjoint es') :
    IsProper (es ++ es') where
  ne e he := (List.mem_append.mp he).elim (h.ne e) (h'.ne e)
  nodup := h.nodup.append h'.nodup hdisjoint

/-! ## Degrees -/

variable [DecidableEq V]

theorem degree_concat (es : List (V × V)) (e : V × V) (v : V) :
    degree (es ++ [e]) v = degree es v + (if e.1 = v then 1 else 0) + if e.2 = v then 1 else 0 := by
  unfold degree
  rw [List.countP_append, List.countP_append, List.countP_singleton, List.countP_singleton]
  simp only [decide_eq_true_eq]
  omega

/-- More edges, no smaller degree. -/
theorem degree_le_append (es es' : List (V × V)) (v : V) : degree es v ≤ degree (es ++ es') v := by
  unfold degree
  rw [List.countP_append, List.countP_append]
  omega

/-- Each edge has two ends. -/
theorem degree_le (es : List (V × V)) (v : V) : degree es v ≤ 2 * es.length := by
  unfold degree
  have hfirst := List.countP_le_length (p := fun e : V × V => decide (e.1 = v)) (l := es)
  have hsecond := List.countP_le_length (p := fun e : V × V => decide (e.2 = v)) (l := es)
  omega

end EdgeList
