import Mathlib.Data.List.Basic
import Mathlib.Data.List.Nodup
import Mathlib.Order.Nat

/-!
# Breadth-first search

A breadth-first search keeps the nodes it has visited and a queue of nodes it has met. The levels of
these nodes increase along the queue, and the successors of a visited node are at most one level
below it; so no walk from the source reaches a node in fewer steps than its level.

## Main definitions

* `BreadthFirst.StepsTo`: a node is reached in a number of steps
* `BreadthFirst.Layered`: the invariant of the search
* `BreadthFirst.Reached`: the nodes met are reached in as many steps as their levels say

## Main results

* `Layered.visit`: visiting the first node of the queue keeps the invariant
* `Layered.level_le`: a walk is no shorter than the level of the first node of the queue
* `Layered.mem_of_stepsTo`: with an empty queue everything reachable was visited
* `Reached.visit`: visiting a node meets nothing but what its level says
-/

namespace BreadthFirst

variable {α : Type*} {next : α → List α} {source u v : α} {done pending fresh : List α}
  {level level' : α → ℕ} {n : ℕ}

/-- A node is reached from the source in a number of steps. -/
inductive StepsTo (next : α → List α) (source : α) : ℕ → α → Prop
  | start : StepsTo next source 0 source
  | step {n : ℕ} {u v : α} (h : StepsTo next source n u) (hv : v ∈ next u) :
    StepsTo next source (n + 1) v

/-- What a search that has visited some nodes, and has others in its queue, knows of the levels. -/
structure Layered (next : α → List α) (source : α) (done pending : List α) (level : α → ℕ) :
    Prop where
  source_mem : source ∈ done ++ pending
  source_level : level source = 0
  nodup : (done ++ pending).Nodup
  ordered : (done ++ pending).Pairwise (level · ≤ level ·)
  narrow : ∀ u ∈ pending, ∀ v ∈ pending, level v ≤ level u + 1
  closed : ∀ u ∈ done, ∀ v ∈ next u, v ∈ done ++ pending ∧ level v ≤ level u + 1

/-- The search starts with the source in the queue. -/
theorem layered_start (h : level source = 0) : Layered next source [] [source] level where
  source_mem := List.mem_singleton_self source
  source_level := h
  nodup := List.nodup_singleton source
  ordered := List.pairwise_singleton _ source
  narrow u hu v hv := by
    rw [List.mem_singleton.mp hu, List.mem_singleton.mp hv]
    exact Nat.le_succ _
  closed u hu := absurd hu List.not_mem_nil

/-- **Visiting the first node of the queue**: its new successors enter the queue, one level below. -/
theorem Layered.visit (h : Layered next source done (u :: pending) level)
    (hold : ∀ v ∈ done ++ u :: pending, level' v = level v)
    (hnew : ∀ v ∈ fresh, level' v = level u + 1) (hnodup : fresh.Nodup)
    (hdisjoint : ∀ v ∈ fresh, v ∉ done ++ u :: pending)
    (hnext : ∀ v ∈ next u, v ∈ done ++ u :: pending ∨ v ∈ fresh) :
    Layered next source (done ++ [u]) (pending ++ fresh) level' := by
  have hlist : done ++ [u] ++ (pending ++ fresh) = (done ++ u :: pending) ++ fresh := by simp
  have hu : level' u = level u := hold u (by simp)
  -- the node visited is least in the queue, and the queue ends within the next level
  have hleast : ∀ v ∈ pending, level u ≤ level v := by
    have hpairs := (List.pairwise_append.mp h.ordered).2.1
    exact (List.pairwise_cons.mp hpairs).1
  have hwithin : ∀ v ∈ done ++ u :: pending, level v ≤ level u + 1 := by
    intro v hv
    rcases List.mem_append.mp hv with hv | hv
    · have hcross := (List.pairwise_append.mp h.ordered).2.2
      exact (hcross v hv u List.mem_cons_self).trans (Nat.le_succ _)
    · exact h.narrow u List.mem_cons_self v hv
  constructor
  case source_mem =>
    rw [hlist]
    exact List.mem_append_left _ h.source_mem
  case source_level => rw [hold source h.source_mem, h.source_level]
  case nodup =>
    rw [hlist]
    exact List.nodup_append'.mpr ⟨h.nodup, hnodup, fun v hv hfresh => hdisjoint v hfresh hv⟩
  case ordered =>
    rw [hlist]
    refine List.pairwise_append.mpr ⟨?_, ?_, ?_⟩
    · refine h.ordered.imp_of_mem fun hv hw hle => ?_
      rwa [hold _ hv, hold _ hw]
    · refine List.Pairwise.imp_of_mem (fun hv hw _ => ?_) hnodup
      exact ((hnew _ hv).trans (hnew _ hw).symm).le
    · intro v hv w hw
      rw [hold v hv, hnew w hw]
      exact hwithin v hv
  case narrow =>
    have hbounds : ∀ v ∈ pending ++ fresh, level u ≤ level' v ∧ level' v ≤ level u + 1 := by
      intro v hv
      rcases List.mem_append.mp hv with hv | hv
      · have hmem : v ∈ done ++ u :: pending :=
          List.mem_append_right _ (List.mem_cons_of_mem u hv)
        rw [hold v hmem]
        exact ⟨hleast v hv, hwithin v hmem⟩
      · rw [hnew v hv]
        exact ⟨Nat.le_succ _, le_rfl⟩
    intro v hv w hw
    exact (hbounds w hw).2.trans (Nat.succ_le_succ (hbounds v hv).1)
  case closed =>
    rw [hlist]
    intro w hw v hv
    rcases List.mem_append.mp hw with hw | hw
    · obtain ⟨hmem, hle⟩ := h.closed w hw v hv
      rw [hold v hmem, hold w (List.mem_append_left _ hw)]
      exact ⟨List.mem_append_left _ hmem, hle⟩
    · obtain rfl := List.mem_singleton.mp hw
      rw [hu]
      rcases hnext v hv with hmem | hmem
      · rw [hold v hmem]
        exact ⟨List.mem_append_left _ hmem, hwithin v hmem⟩
      · exact ⟨List.mem_append_right _ hmem, (hnew v hmem).le⟩

/-- A node reached in some steps was met at no deeper level, unless the steps lead beyond the first
node of the queue. -/
theorem Layered.mem_or_le (h : Layered next source done (u :: pending) level)
    (hsteps : StepsTo next source n v) :
    (v ∈ done ++ u :: pending ∧ level v ≤ n) ∨ level u ≤ n := by
  induction hsteps with
  | start => exact Or.inl ⟨h.source_mem, h.source_level.le⟩
  | @step n w v _ hv ih =>
    rcases ih with ⟨hmem, hle⟩ | hle
    · rcases List.mem_append.mp hmem with hdone | hpending
      · obtain ⟨hmem', hnext⟩ := h.closed w hdone v hv
        exact Or.inl ⟨hmem', hnext.trans (Nat.succ_le_succ hle)⟩
      · -- a node that was not visited yet is at the level of the first one, or below it
        have hleast : level u ≤ level w := by
          rcases List.mem_cons.mp hpending with rfl | hrest
          · exact le_rfl
          · exact (List.pairwise_cons.mp (List.pairwise_append.mp h.ordered).2.1).1 w hrest
        exact Or.inr ((hleast.trans hle).trans (Nat.le_succ n))
    · exact Or.inr (hle.trans (Nat.le_succ n))

/-- **The level is the distance**: no walk reaches the first node of the queue in fewer steps. -/
theorem Layered.level_le (h : Layered next source done (u :: pending) level)
    (hsteps : StepsTo next source n u) : level u ≤ n := by
  rcases h.mem_or_le hsteps with ⟨-, hle⟩ | hle
  · exact hle
  · exact hle

/-- **An empty queue**: everything that is reachable was visited. -/
theorem Layered.mem_of_stepsTo (h : Layered next source done [] level)
    (hsteps : StepsTo next source n v) : v ∈ done := by
  induction hsteps with
  | start => exact List.append_nil done ▸ h.source_mem
  | step _ hv ih => exact List.append_nil done ▸ (h.closed _ ih _ hv).1

/-! ## Levels that are reached -/

/-- The nodes met are reached in as many steps as their levels say. -/
def Reached (next : α → List α) (source : α) (met : List α) (level : α → ℕ) : Prop :=
  ∀ v ∈ met, StepsTo next source (level v) v

variable {met : List α}

/-- The search starts with the source, which is reached in no step. -/
theorem reached_start (h : level source = 0) : Reached next source [source] level := by
  intro v hv
  rw [List.mem_singleton.mp hv, h]
  exact StepsTo.start

/-- **What a visit meets** is reached in one step more than the node visited. -/
theorem Reached.visit (h : Reached next source met level) (hu : u ∈ met)
    (hold : ∀ v ∈ met, level' v = level v) (hnew : ∀ v ∈ fresh, level' v = level u + 1)
    (hnext : ∀ v ∈ fresh, v ∈ next u ∨ v ∈ met) : Reached next source (met ++ fresh) level' := by
  have hmet : ∀ v ∈ met, StepsTo next source (level' v) v := by
    intro v hv
    rw [hold v hv]
    exact h v hv
  intro v hv
  rcases List.mem_append.mp hv with hv | hv
  · exact hmet v hv
  · rcases hnext v hv with hstep | hknown
    · rw [hnew v hv]
      exact (h u hu).step hstep
    · exact hmet v hknown

end BreadthFirst
