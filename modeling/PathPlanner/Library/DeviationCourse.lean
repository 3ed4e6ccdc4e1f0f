import PathPlanner.Library.Deviation

/-!
# The course of an enumeration

An enumeration by deviation may be unable to keep some of the paths that it finds. What it accepts is
then no longer given by a count of better paths, but it is still determined: in each step the best
deviations at the roots of the last accepted path are added to the pending ones, as far as they can be
kept, and the best of these is accepted.

## Main definitions

* `Deviation.spurs`: what the roots of a path add
* `Deviation.Course`: the paths accepted so far, and the pending ones
* `Deviation.Enumerates`: what an enumeration of `k` paths accepts

## Main results

* `Deviation.Course.unique`: as many steps lead to the same paths
* `Deviation.Enumerates.unique`: **an enumeration accepts the same paths**
* `Deviation.Enumerates.finished`: when every path can be kept, the enumeration is the unbounded one
-/

namespace Deviation

variable {E Κ : Type} [LinearOrder Κ] (D : Deviation E Κ) (kept : Set (List E))

/-- The best deviations at the roots of a path that can be kept. -/
def spurs (accepted : List (List E)) (a : List E) : Set (List E) :=
  {q | q ∈ kept ∧ ∃ i < a.length, D.IsBest (D.deviations accepted a i) q}

/-- The paths accepted before the last one, the last one, and what is pending before its roots are
searched. -/
inductive Course : List (List E) → List E → Set (List E) → Prop
  | start {a : List E} (hbest : D.IsBest D.targets a) (hkept : a ∈ kept) : Course [] a ∅
  | accept {before : List (List E)} {a c : List E} {pending : Set (List E)}
      (hcourse : Course before a pending)
      (hbest : D.IsBest (pending ∪ D.spurs kept (before ++ [a]) a) c) :
      Course (before ++ [a]) c ((pending ∪ D.spurs kept (before ++ [a]) a) \ {c})

/-- What an enumeration of `k` paths accepts: `k` paths, or fewer when nothing more is pending. -/
def Enumerates (k : ℕ) (accepted : List (List E)) : Prop :=
  ∃ before a pending, accepted = before ++ [a] ∧ D.Course kept before a pending ∧
    (accepted.length = k ∨
      accepted.length < k ∧ pending ∪ D.spurs kept accepted a = ∅)

variable {D kept} {accepted accepted' before before' : List (List E)} {a a' c c' : List E}
  {pending pending' : Set (List E)} {k : ℕ}

theorem union_spurs_subset (h : pending ⊆ D.paths) :
    pending ∪ D.spurs kept accepted a ⊆ D.paths := by
  rintro q (hq | ⟨-, i, -, hbest⟩)
  · exact h hq
  · exact hbest.1.1

/-- All paths of a course belong to the family. -/
theorem Course.mem_paths (h : D.Course kept before a pending) : a ∈ D.paths ∧ pending ⊆ D.paths := by
  induction h with
  | start hbest _ => exact ⟨hbest.1.1, Set.empty_subset _⟩
  | accept _ hbest ih =>
    exact ⟨union_spurs_subset ih.2 hbest.1, Set.sdiff_subset.trans (union_spurs_subset ih.2)⟩

/-- A set of paths has at most one best path. -/
theorem IsBest.unique {S : Set (List E)} (hS : S ⊆ D.paths) (h : D.IsBest S c)
    (h' : D.IsBest S c') : c = c' :=
  D.key_injective c (hS h.1) c' (hS h'.1) (le_antisymm (h.2 c' h'.1) (h'.2 c h.1))

/-- **As many steps** lead to the same paths. -/
theorem Course.unique (h : D.Course kept before a pending) (h' : D.Course kept before' a' pending')
    (hlength : before.length = before'.length) :
    before = before' ∧ a = a' ∧ pending = pending' := by
  induction h generalizing before' a' pending' with
  | start hbest _ =>
    cases h' with
    | start hbest' _ => exact ⟨rfl, hbest.unique (fun _ ht => ht.1) hbest', rfl⟩
    | accept _ _ => simp at hlength
  | accept hcourse hbest ih =>
    cases h' with
    | start _ _ => simp at hlength
    | accept hcourse' hbest' =>
      rw [List.length_append, List.length_append] at hlength
      obtain ⟨rfl, rfl, rfl⟩ := ih hcourse' (Nat.add_right_cancel hlength)
      obtain rfl := hbest.unique (union_spurs_subset hcourse.mem_paths.2) hbest'
      exact ⟨rfl, rfl, rfl⟩

/-- A course that goes on has something pending before. -/
theorem Course.nonempty_of_lt (h : D.Course kept before a pending)
    (h' : D.Course kept before' a' pending') (hlt : before.length < before'.length) :
    (pending ∪ D.spurs kept (before ++ [a]) a).Nonempty := by
  induction h' with
  | start _ _ => exact absurd hlt (Nat.not_lt_zero _)
  | accept hcourse hbest ih =>
    rw [List.length_append, List.length_singleton, Nat.lt_succ_iff] at hlt
    rcases hlt.eq_or_lt with heq | hlt
    · obtain ⟨rfl, rfl, rfl⟩ := h.unique hcourse heq
      exact ⟨_, hbest.1⟩
    · exact ih hlt

theorem Enumerates.mem_paths (h : D.Enumerates kept k accepted) : ∀ p ∈ accepted, p ∈ D.paths := by
  obtain ⟨before, a, pending, rfl, hcourse, -⟩ := h
  have hbefore : ∀ p ∈ before, p ∈ D.paths := by
    induction hcourse with
    | start _ _ => exact fun p hp => absurd hp List.not_mem_nil
    | accept hcourse _ ih =>
      intro p hp
      rcases List.mem_append.mp hp with hp | hp
      · exact ih p hp
      · exact List.mem_singleton.mp hp ▸ hcourse.mem_paths.1
  intro p hp
  rcases List.mem_append.mp hp with hp | hp
  · exact hbefore p hp
  · exact List.mem_singleton.mp hp ▸ hcourse.mem_paths.1

theorem Enumerates.ne_nil (h : D.Enumerates kept k accepted) : accepted ≠ [] := by
  obtain ⟨before, a, -, rfl, -⟩ := h
  exact List.append_ne_nil_of_right_ne_nil _ (List.cons_ne_nil _ _)

/-- An enumeration starts with a best path that can be kept. -/
theorem Enumerates.exists_isBest (h : D.Enumerates kept k accepted) :
    ∃ t ∈ kept, D.IsBest D.targets t := by
  obtain ⟨before, a, pending, -, hcourse, -⟩ := h
  induction hcourse with
  | start hbest hkept => exact ⟨_, hkept, hbest⟩
  | accept _ _ ih => exact ih

/-- An enumeration is not longer than another one. -/
theorem Enumerates.length_le (h : D.Enumerates kept k accepted)
    (h' : D.Enumerates kept k accepted') : accepted'.length ≤ accepted.length := by
  obtain ⟨before, a, pending, rfl, hcourse, hend⟩ := h
  obtain ⟨before', a', pending', rfl, hcourse', hend'⟩ := h'
  rcases hend with hlength | ⟨-, hempty⟩
  · rcases hend' with hlength' | ⟨hlt, -⟩
    · exact (hlength'.trans hlength.symm).le
    · exact hlt.le.trans_eq hlength.symm
  · by_contra hlt
    rw [List.length_append, List.length_append, List.length_singleton, List.length_singleton] at hlt
    obtain ⟨q, hq⟩ := hcourse.nonempty_of_lt hcourse' (by omega)
    rw [hempty] at hq
    exact hq

/-- **An enumeration accepts the same paths.** -/
theorem Enumerates.unique (h : D.Enumerates kept k accepted)
    (h' : D.Enumerates kept k accepted') : accepted = accepted' := by
  have hlength := le_antisymm (h'.length_le h) (h.length_le h')
  obtain ⟨before, a, pending, rfl, hcourse, -⟩ := h
  obtain ⟨before', a', pending', rfl, hcourse', -⟩ := h'
  rw [List.length_append, List.length_append] at hlength
  obtain ⟨rfl, rfl, -⟩ := hcourse.unique hcourse' (Nat.add_right_cancel hlength)
  rfl

/-! ## Where every path can be kept -/

/-- The best path that is looked for is the best of all. -/
theorem isBest_paths_of_isBest_targets (h : D.IsBest D.targets a) : D.IsBest D.paths a := by
  refine ⟨h.1.1, fun t ht => le_of_not_gt fun hlt => ?_⟩
  exact hlt.not_ge (h.2 t (mem_targets_of_le h.1 ht hlt.le))

/-- **What the roots add** expands the path, when every path can be kept. -/
theorem expands_spurs (hkept : D.paths ⊆ kept) (hfin : D.paths.Finite) :
    D.Expands before a a.length pending (pending ∪ D.spurs kept (before ++ [a]) a) where
  subset := Set.subset_union_left
  new q hq := hq.imp id fun ⟨_, i, hi, hbest⟩ => ⟨i, hi, hbest⟩
  covered i hi t ht := by
    obtain ⟨q, hq, hleast⟩ := Set.exists_min_image (D.deviations (before ++ [a]) a i) D.key
      (hfin.subset fun p hp => hp.1) ⟨t, ht⟩
    exact ⟨q, Or.inr ⟨hkept hq.1, i, hi, hq, hleast⟩, hq, hleast t ht⟩

/-- **The course keeps the invariant** of the enumeration. -/
theorem Course.run (hkept : D.paths ⊆ kept) (hfin : D.paths.Finite)
    (h : D.Course kept before a pending) :
    ∃ waiting, D.Run before waiting ∧ D.IsBest waiting a ∧ pending = waiting \ {a} := by
  induction h with
  | @start a hbest _ =>
    refine ⟨{a}, .initial (isBest_paths_of_isBest_targets hbest), ⟨rfl, fun q hq => hq ▸ le_rfl⟩, ?_⟩
    exact Set.sdiff_self.symm
  | accept _ hbest ih =>
    obtain ⟨waiting, hrun, hpicked, rfl⟩ := ih
    exact ⟨_, hrun.step hpicked (expands_spurs hkept hfin), hbest, rfl⟩

/-- Every path of the course was a best pending one. -/
theorem Course.picked (hkept : D.paths ⊆ kept) (hfin : D.paths.Finite)
    (h : D.Course kept before a pending) : ∀ front x after, before ++ [a] = front ++ x :: after →
      ∃ waiting, D.Run front waiting ∧ D.IsBest waiting x := by
  induction h with
  | start hbest hmem =>
    intro front x after heq
    obtain ⟨waiting, hrun, hpicked, -⟩ := (Course.start hbest hmem).run hkept hfin
    cases front with
    | nil => exact ⟨waiting, hrun, (List.cons.inj heq).1 ▸ hpicked⟩
    | cons y front =>
      have hlength := congrArg List.length heq
      simp at hlength
  | accept hcourse hbest ih =>
    intro front x after heq
    rcases List.eq_nil_or_concat after with rfl | ⟨after, y, rfl⟩
    · obtain ⟨rfl, hx⟩ := List.append_inj' heq rfl
      obtain rfl := List.singleton_inj.mp hx
      obtain ⟨waiting, hrun, hpicked, -⟩ := (hcourse.accept hbest).run hkept hfin
      exact ⟨waiting, hrun, hpicked⟩
    · rw [List.concat_eq_append, ← List.cons_append, ← List.append_assoc] at heq
      exact ih front x after (List.append_inj' heq rfl).1

/-- **Where every path can be kept**, the enumeration is the unbounded one. -/
theorem Enumerates.finished (hkept : D.paths ⊆ kept) (hfin : D.paths.Finite)
    (h : D.Enumerates kept k accepted) : D.Finished k accepted := by
  obtain ⟨before, a, pending, rfl, hcourse, hend⟩ := h
  refine ⟨hcourse.picked hkept hfin, hend.imp id fun ⟨hlt, hempty⟩ => ⟨hlt, ?_⟩⟩
  obtain ⟨waiting, hrun, hpicked, rfl⟩ := hcourse.run hkept hfin
  have hrun' := hrun.step hpicked (expands_spurs hkept hfin)
  rwa [hempty] at hrun'

end Deviation
