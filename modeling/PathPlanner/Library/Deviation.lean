import Mathlib.Data.Set.Card
import Mathlib.Tactic

/-!
# Ranked enumeration by deviation

The paths of a family are enumerated in the order of their keys. A pending path that is least is
accepted, and every beginning of it becomes a *root*: among the paths that continue the root with an
edge that no accepted path takes after the same root, a best one is added to the pending paths. The
notion of *the same root* is a parameter: it is reflexive, and may identify different beginnings.

What is accepted is always increasing. Whether nothing is omitted depends on the notion of the same
root: the paths that are found are exactly the *discoverable* ones, and where only equal roots are
the same, every path is discoverable.

## Main definitions

* `Deviation E Κ`: the paths, their keys, what a search at a root can reach, and the same roots
* `Deviation.deviations`: the paths that leave a root by an edge that is not banned
* `Deviation.Run accepted pending`: what holds between two acceptances
* `Deviation.Finished k accepted`: the enumeration of `k` paths has ended
* `Deviation.Discoverable`: some root leads to the path before its turn

## Main results

* `Deviation.Run.step`: accepting a least pending path and expanding its roots keeps the invariant
* `Deviation.Finished.increasing`: the accepted paths are increasing
* `Deviation.Finished.complete_iff`: the first `k` paths are all accepted exactly when they are
  discoverable
* `Deviation.Finished.omits_none_iff`: what acceptance of the first `k` paths means
* `Deviation.discoverable_of_same_imp_eq`: the classical case
-/

/-- A family of paths to enumerate by deviation. A search at position `i` finds only paths in
`reach i`. -/
structure Deviation (E Κ : Type) [LinearOrder Κ] where
  paths : Set (List E)
  key : List E → Κ
  reach : ℕ → Set (List E)
  same : List E → List E → Prop
  key_injective : ∀ p ∈ paths, ∀ q ∈ paths, key p = key q → p = q
  same_refl : ∀ root, same root root
  length_lt : ∀ p ∈ paths, ∀ q ∈ paths, ∀ i, p.take i = q.take i → i < q.length → i < p.length
  reach_zero : ∀ p ∈ paths, p ∈ reach 0 → ∀ i, p ∈ reach i
  reach_of_le : ∀ p ∈ paths, ∀ q ∈ paths, ∀ i, p.take i = q.take i → key p ≤ key q →
    q ∈ reach i → p ∈ reach i

namespace Deviation

variable {E Κ : Type} [LinearOrder Κ] (D : Deviation E Κ)

/-- A path of the set with the least key in it. -/
def IsBest (S : Set (List E)) (q : List E) : Prop := q ∈ S ∧ ∀ t ∈ S, D.key q ≤ D.key t

/-- Some accepted path takes the edge after the same root. -/
def Banned (accepted : List (List E)) (a : List E) (i : ℕ) (e : E) : Prop :=
  ∃ b ∈ accepted, D.same (b.take i) (a.take i) ∧ b[i]? = some e

/-- The paths that begin like `a` up to `i`, and go on by an edge that is not banned. -/
def deviations (accepted : List (List E)) (a : List E) (i : ℕ) : Set (List E) :=
  {t | t ∈ D.paths ∧ t.take i = a.take i ∧ t ∈ D.reach i ∧
    ∃ e, t[i]? = some e ∧ ¬ D.Banned accepted a i e}

/-- The accepted paths have been expanded, and the pending ones wait. -/
structure Run (accepted : List (List E)) (pending : Set (List E)) : Prop where
  accepted_mem : ∀ a ∈ accepted, a ∈ D.paths
  pending_mem : ∀ q ∈ pending, q ∈ D.paths
  increasing : accepted.Pairwise (D.key · < D.key ·)
  fresh : ∀ q ∈ pending, ∀ a ∈ accepted, D.key a < D.key q
  first : ∃ a, (a ∈ accepted ∨ a ∈ pending) ∧ ∀ t ∈ D.paths, D.key a ≤ D.key t
  generated : ∀ q, q ∈ accepted ∨ q ∈ pending → (∀ t ∈ D.paths, D.key q ≤ D.key t) ∨
    ∃ before a after i, accepted = before ++ a :: after ∧ i < a.length ∧
      D.IsBest (D.deviations (before ++ [a]) a i) q
  covered : ∀ before a after i, accepted = before ++ a :: after → i < a.length →
    ∀ t ∈ D.deviations (before ++ [a]) a i, ∃ c, (c ∈ accepted ∨ c ∈ pending) ∧
      c ∈ D.deviations (before ++ [a]) a i ∧ D.key c ≤ D.key t

/-- The pending paths after the first `n` roots of `b` have been searched. -/
structure Expands (accepted : List (List E)) (b : List E) (n : ℕ)
    (pending pending' : Set (List E)) : Prop where
  subset : pending ⊆ pending'
  new : ∀ q ∈ pending', q ∈ pending ∨ ∃ i < n, D.IsBest (D.deviations (accepted ++ [b]) b i) q
  covered : ∀ i < n, ∀ t ∈ D.deviations (accepted ++ [b]) b i,
    ∃ c ∈ pending', c ∈ D.deviations (accepted ++ [b]) b i ∧ D.key c ≤ D.key t

variable {D} {accepted before after : List (List E)} {pending pending' pending'' : Set (List E)}
  {a b p q t : List E} {i k n : ℕ}

/-! ## The invariant -/

/-- An accepted path is no deviation: its own edge is banned. -/
theorem not_mem_deviations (ha : t ∈ accepted) (ht : t.take i = a.take i) :
    t ∉ D.deviations accepted a i := by
  rintro ⟨-, -, -, e, he, hban⟩
  exact hban ⟨t, ha, ht ▸ D.same_refl _, he⟩

theorem deviations_congr (h : a.take i = b.take i) :
    D.deviations accepted a i = D.deviations accepted b i := by
  simp only [deviations, Banned, h]

/-- More accepted paths leave fewer deviations. -/
theorem deviations_anti {accepted' : List (List E)} (h : ∀ c ∈ accepted, c ∈ accepted') :
    D.deviations accepted' a i ⊆ D.deviations accepted a i := by
  rintro t ⟨hp, ht, hr, e, he, hban⟩
  refine ⟨hp, ht, hr, e, he, ?_⟩
  rintro ⟨c, hc, hs, hce⟩
  exact hban ⟨c, h c hc, hs, hce⟩

/-- The last accepted path with a given beginning, when there is one. -/
theorem exists_last_sharing (accepted : List (List E)) {r : List E}
    (h : ∃ c ∈ accepted, c.take i = r) :
    ∃ before c after, accepted = before ++ c :: after ∧ c.take i = r ∧
      ∀ d ∈ after, d.take i ≠ r := by
  induction accepted with
  | nil =>
    obtain ⟨c, hc, -⟩ := h
    cases hc
  | cons d accepted ih =>
    by_cases hlater : ∃ c ∈ accepted, c.take i = r
    · obtain ⟨before, c, after, rfl, hc, hafter⟩ := ih hlater
      exact ⟨d :: before, c, after, rfl, hc, hafter⟩
    · obtain ⟨c, hc, hcr⟩ := h
      rcases List.mem_cons.mp hc with rfl | hc
      · exact ⟨[], c, accepted, rfl, hcr, fun d hd hdr => hlater ⟨d, hd, hdr⟩⟩
      · exact absurd ⟨c, hc, hcr⟩ hlater

/-- The enumeration starts with a best path. -/
theorem Run.initial (h : D.IsBest D.paths a) : D.Run [] {a} where
  accepted_mem := by simp
  pending_mem := by
    rintro q rfl
    exact h.1
  increasing := List.Pairwise.nil
  fresh := by simp
  first := ⟨a, Or.inr rfl, h.2⟩
  generated := by
    rintro q (hq | rfl)
    · cases hq
    · exact Or.inl h.2
  covered := by
    intro before c after i heq
    simp at heq

theorem Expands.zero : D.Expands accepted b 0 pending pending where
  subset := subset_rfl
  new _ hq := Or.inl hq
  covered i hi := absurd hi (Nat.not_lt_zero i)

/-- **One more root** is searched: nothing is lost, what is new is best there, and what deviates
there is covered. -/
theorem Expands.succ (h : D.Expands accepted b n pending pending') (hsub : pending' ⊆ pending'')
    (hnew : ∀ q ∈ pending'', q ∈ pending' ∨ D.IsBest (D.deviations (accepted ++ [b]) b n) q)
    (hcov : ∀ t ∈ D.deviations (accepted ++ [b]) b n,
      ∃ c ∈ pending'', c ∈ D.deviations (accepted ++ [b]) b n ∧ D.key c ≤ D.key t) :
    D.Expands accepted b (n + 1) pending pending'' where
  subset := h.subset.trans hsub
  new q hq := by
    rcases hnew q hq with hq | hbest
    · exact (h.new q hq).imp id fun ⟨i, hi, hbest⟩ => ⟨i, by omega, hbest⟩
    · exact Or.inr ⟨n, by omega, hbest⟩
  covered i hi t ht := by
    rcases Nat.lt_succ_iff_lt_or_eq.mp hi with hi | rfl
    · obtain ⟨c, hc, hdev, hle⟩ := h.covered i hi t ht
      exact ⟨c, hsub hc, hdev, hle⟩
    · exact hcov t ht

/-- **No deviation precedes its root**: what leaves the path that was just accepted ranks after
it. -/
theorem Run.le_of_mem_deviations (h : D.Run accepted pending) (hb : D.IsBest pending b)
    (hi : i < b.length) (hq : q ∈ D.deviations (accepted ++ [b]) b i) : D.key b ≤ D.key q := by
  obtain ⟨hqp, hqi, hqr, e, he, hban⟩ := hq
  have hbp := h.pending_mem b hb.1
  rcases h.generated b (Or.inr hb.1) with hleast | ⟨before, a, after, j, rfl, hj, hbest⟩
  · exact hleast q hqp
  by_cases hij : j < i
  · -- `q` goes on like `b` beyond the root where `b` was found, and `b` is best there
    refine le_of_not_gt fun hlt => ?_
    obtain ⟨-, hba, hbr, f, hf, hfban⟩ := hbest.1
    have hqj : q.take j = b.take j := by
      have := congrArg (List.take j) hqi
      rwa [List.take_take, List.take_take, min_eq_left hij.le] at this
    have hqf : q[j]? = some f := by
      rw [← hf, ← List.getElem?_take_of_lt hij, hqi, List.getElem?_take_of_lt hij]
    have hqrj := D.reach_of_le q hqp b hbp j hqj hlt.le hbr
    exact hlt.not_ge (hbest.2 q ⟨hqp, hqj.trans hba, hqrj, f, hqf, hfban⟩)
  · -- the last accepted path that shares this root was expanded without `b` in the way
    have hba : a.take i = b.take i := by
      have := congrArg (List.take i) hbest.1.2.1
      rw [List.take_take, List.take_take, min_eq_left (not_lt.mp hij)] at this
      exact this.symm
    obtain ⟨before', c, after', heq, hci, hlast⟩ :=
      exists_last_sharing (before ++ a :: after) ⟨a, by simp, hba⟩
    have hcp : c ∈ D.paths := h.accepted_mem c (heq ▸ by simp)
    have hmem : q ∈ D.deviations (before' ++ [c]) c i := by
      rw [deviations_congr hci]
      refine deviations_anti ?_ ⟨hqp, hqi, hqr, e, he, hban⟩
      intro d hd
      rw [heq]
      simp only [List.mem_append, List.mem_cons, List.not_mem_nil, or_false] at hd ⊢
      tauto
    obtain ⟨d, hd, hdev, hle⟩ := h.covered before' c after' i heq
      (D.length_lt c hcp b hbp i hci hi) q hmem
    rcases hd with hd | hd
    · -- an accepted path with this root is not after `c`, so its edge was banned
      refine absurd hdev (not_mem_deviations ?_ hdev.2.1)
      rw [heq] at hd
      simp only [List.mem_append, List.mem_cons, List.not_mem_nil, or_false] at hd ⊢
      rcases hd with hd | rfl | hd
      · exact Or.inl hd
      · exact Or.inr rfl
      · exact absurd (hdev.2.1.trans hci) (hlast d hd)
    · exact (hb.2 d hd).trans hle

/-- **One step** of the enumeration: a least pending path is accepted and expanded. -/
theorem Run.step (h : D.Run accepted pending) (hb : D.IsBest pending b)
    (he : D.Expands accepted b b.length (pending \ {b}) pending') :
    D.Run (accepted ++ [b]) pending' := by
  have hbp := h.pending_mem b hb.1
  have hkey : ∀ q ∈ D.paths, q ≠ b → D.key b ≤ D.key q → D.key b < D.key q := fun q hq hne hle =>
    hle.lt_of_ne fun heq => hne (D.key_injective b hbp q hq heq).symm
  -- a path that was accepted or pending still is
  have hkeep : ∀ q, q ∈ accepted ∨ q ∈ pending → q ∈ accepted ++ [b] ∨ q ∈ pending' := by
    rintro q (hq | hq)
    · exact Or.inl (List.mem_append_left _ hq)
    · by_cases hqb : q = b
      · exact Or.inl (by simp [hqb])
      · exact Or.inr (he.subset ⟨hq, hqb⟩)
  constructor
  · intro q hq
    rcases List.mem_append.mp hq with hq | hq
    · exact h.accepted_mem q hq
    · rwa [List.mem_singleton.mp hq]
  · intro q hq
    rcases he.new q hq with hold | ⟨i, -, hbest⟩
    · exact h.pending_mem q hold.1
    · exact hbest.1.1
  · rw [List.pairwise_append]
    exact ⟨h.increasing, List.pairwise_singleton _ _, fun c hc d hd =>
      List.mem_singleton.mp hd ▸ h.fresh b hb.1 c hc⟩
  · intro q hq c hc
    have hbq : D.key b < D.key q := by
      rcases he.new q hq with hold | ⟨i, hi, hbest⟩
      · exact hkey q (h.pending_mem q hold.1) hold.2 (hb.2 q hold.1)
      · refine hkey q hbest.1.1 ?_ (h.le_of_mem_deviations hb hi hbest.1)
        rintro rfl
        exact not_mem_deviations (by simp) rfl hbest.1
    rcases List.mem_append.mp hc with hc | hc
    · exact (h.fresh b hb.1 c hc).trans hbq
    · rwa [List.mem_singleton.mp hc]
  · obtain ⟨c, hc, hleast⟩ := h.first
    exact ⟨c, hkeep c hc, hleast⟩
  · have hold : ∀ q, q ∈ accepted ∨ q ∈ pending → (∀ t ∈ D.paths, D.key q ≤ D.key t) ∨
        ∃ before a after i, accepted ++ [b] = before ++ a :: after ∧ i < a.length ∧
          D.IsBest (D.deviations (before ++ [a]) a i) q := by
      intro q hq
      refine (h.generated q hq).imp id ?_
      rintro ⟨before, a, after, i, rfl, hi, hbest⟩
      exact ⟨before, a, after ++ [b], i, by simp, hi, hbest⟩
    rintro q (hq | hq)
    · rcases List.mem_append.mp hq with hq | hq
      · exact hold q (Or.inl hq)
      · exact hold q (Or.inr (List.mem_singleton.mp hq ▸ hb.1))
    · rcases he.new q hq with hq | ⟨i, hi, hbest⟩
      · exact hold q (Or.inr hq.1)
      · exact Or.inr ⟨accepted, b, [], i, rfl, hi, hbest⟩
  · intro before a after i heq hi t ht
    rcases List.eq_nil_or_concat after with rfl | ⟨after, x, rfl⟩
    · -- the root belongs to the path that was just accepted
      obtain ⟨rfl, hab⟩ := List.append_inj' heq rfl
      obtain rfl := List.singleton_inj.mp hab.symm
      obtain ⟨c, hc, hdev, hle⟩ := he.covered i hi t ht
      exact ⟨c, Or.inr hc, hdev, hle⟩
    · have hsplit : accepted = before ++ a :: after := by
        rw [List.concat_eq_append, ← List.cons_append, ← List.append_assoc] at heq
        exact (List.append_inj' heq rfl).1
      obtain ⟨c, hc, hdev, hle⟩ := h.covered before a after i hsplit hi t ht
      exact ⟨c, hkeep c hc, hdev, hle⟩

/-! ## The end of the enumeration -/

variable (D) in
/-- Every path was accepted as a best pending one, until `k` were or none was pending. -/
structure Finished (k : ℕ) (accepted : List (List E)) : Prop where
  picked : ∀ before x after, accepted = before ++ x :: after →
    ∃ pending, D.Run before pending ∧ D.IsBest pending x
  stopped : accepted.length = k ∨ accepted.length < k ∧ D.Run accepted ∅

/-- An enumeration of more paths begins with one of fewer. -/
theorem Finished.take (h : D.Finished n accepted) (hk : k ≤ n) :
    D.Finished k (accepted.take k) where
  picked before x after heq := by
    refine h.picked before x (after ++ accepted.drop k) ?_
    rw [← List.cons_append, ← List.append_assoc, ← heq, List.take_append_drop]
  stopped := by
    rcases Nat.lt_or_ge accepted.length k with hlt | hge
    · rw [List.take_of_length_le hlt.le]
      rcases h.stopped with heq | ⟨-, hrun⟩
      · omega
      · exact Or.inr ⟨hlt, hrun⟩
    · exact Or.inl (by simpa using hge)

theorem Finished.mem_paths (h : D.Finished k accepted) (ha : a ∈ accepted) : a ∈ D.paths := by
  obtain ⟨before, after, heq⟩ := List.append_of_mem ha
  obtain ⟨pending, hrun, hbest⟩ := h.picked before a after heq
  exact hrun.pending_mem a hbest.1

/-- **The accepted paths are increasing.** -/
theorem Finished.increasing (h : D.Finished k accepted) :
    accepted.Pairwise (D.key · < D.key ·) := by
  rcases List.eq_nil_or_concat accepted with rfl | ⟨before, x, rfl⟩
  · exact List.Pairwise.nil
  · rw [List.concat_eq_append] at h ⊢
    obtain ⟨pending, hrun, hbest⟩ := h.picked before x [] rfl
    rw [List.pairwise_append]
    exact ⟨hrun.increasing, List.pairwise_singleton _ _, fun c hc d hd =>
      List.mem_singleton.mp hd ▸ hrun.fresh x hbest.1 c hc⟩

/-- The first accepted path is a best one. -/
theorem Finished.head_isBest (h : D.Finished k (a :: accepted)) : D.IsBest D.paths a := by
  obtain ⟨pending, hrun, hbest⟩ := h.picked [] a accepted rfl
  refine ⟨hrun.pending_mem a hbest.1, fun t ht => ?_⟩
  obtain ⟨c, hc, hleast⟩ := hrun.first
  rcases hc with hc | hc
  · cases hc
  · exact (hbest.2 c hc).trans (hleast t ht)

/-- The accepted paths, as a set, are as many as the list is long. -/
theorem Finished.ncard_accepted (h : D.Finished k accepted) :
    {p | p ∈ accepted}.ncard = accepted.length := by
  classical
  have hnodup : accepted.Nodup := h.increasing.imp fun hlt heq => hlt.ne (congrArg D.key heq)
  have heq : {p | p ∈ accepted} = (accepted.toFinset : Set (List E)) := by
    ext p
    simp
  rw [heq, Set.ncard_coe_finset, List.toFinset_card_of_nodup hnodup]

theorem Finished.length_le (h : D.Finished k accepted) : accepted.length ≤ k := by
  rcases h.stopped with heq | ⟨hlt, -⟩
  · exact heq.le
  · exact hlt.le

/-! ## Completeness -/

variable (D) in
/-- The paths that are to be enumerated: those a search from the start can reach. -/
def targets : Set (List E) := {t | t ∈ D.paths ∧ t ∈ D.reach 0}

variable (D) in
/-- The paths to be enumerated that rank before a given one. -/
def better (t : List E) : Set (List E) := {p | p ∈ D.targets ∧ D.key p < D.key t}

variable (D) in
/-- **Discoverable paths**: the path is best of all, or some better path shares a root with it such
that, when that root is searched, the next edge of the path is free, and every path in between that
continues the root is banned. -/
def Discoverable (t : List E) : Prop :=
  (∀ p ∈ D.paths, D.key t ≤ D.key p) ∨
    ∃ a ∈ D.better t, ∃ i < t.length, a.take i = t.take i ∧
      (∀ p ∈ D.targets, D.key p ≤ D.key a → D.same (p.take i) (a.take i) → p[i]? ≠ t[i]?) ∧
      ∀ p ∈ D.better t, D.key a < D.key p → p.take i = a.take i →
        ∃ b ∈ D.targets, D.key b ≤ D.key a ∧ D.same (b.take i) (a.take i) ∧ b[i]? = p[i]?

/-- What ranks before a path to be enumerated is to be enumerated. -/
theorem mem_targets_of_le (ht : t ∈ D.targets) (hp : p ∈ D.paths) (hle : D.key p ≤ D.key t) :
    p ∈ D.targets :=
  ⟨hp, D.reach_of_le p hp t ht.1 0 rfl hle ht.2⟩

theorem better_ncard_lt (hfin : D.targets.Finite) (hp : p ∈ D.better t) :
    (D.better p).ncard < (D.better t).ncard := by
  refine Set.ncard_lt_ncard ⟨fun q hq => ⟨hq.1, hq.2.trans hp.2⟩, fun hsub => ?_⟩
    (hfin.subset fun q hq => hq.1)
  exact lt_irrefl _ (hsub hp).2

/-- In an increasing list, what ranks no later than an element stands no later. -/
theorem mem_of_key_le (h : (before ++ a :: after).Pairwise (D.key · < D.key ·))
    (hp : p ∈ before ++ a :: after) (hle : D.key p ≤ D.key a) : p ∈ before ++ [a] := by
  rw [List.pairwise_append, List.pairwise_cons] at h
  simp only [List.mem_append, List.mem_cons, List.not_mem_nil, or_false] at hp ⊢
  rcases hp with hp | rfl | hp
  · exact Or.inl hp
  · exact Or.inr rfl
  · exact absurd (h.2.1.1 p hp) hle.not_gt

theorem key_le_of_mem (h : (before ++ a :: after).Pairwise (D.key · < D.key ·))
    (hp : p ∈ before ++ [a]) : D.key p ≤ D.key a := by
  rw [List.pairwise_append] at h
  rcases List.mem_append.mp hp with hp | hp
  · exact (h.2.2 p hp a List.mem_cons_self).le
  · rw [List.mem_singleton.mp hp]

/-- A path that was accepted is discoverable, once everything before it was accepted. -/
theorem Finished.discoverable (h : D.Finished k accepted) (ht : t ∈ D.targets)
    (hmem : t ∈ accepted) (hall : ∀ p ∈ D.better t, p ∈ accepted) : D.Discoverable t := by
  obtain ⟨front, rest, rfl⟩ := List.append_of_mem hmem
  obtain ⟨pending, hrun, hbest⟩ := h.picked front t rest rfl
  rcases hrun.generated t (Or.inr hbest.1) with hleast | ⟨before, a, after, i, rfl, hi, hdev⟩
  · exact Or.inl hleast
  have hinc := h.increasing
  rw [List.append_assoc, List.cons_append] at hinc hall
  have hlt : D.key a < D.key t := hrun.fresh t hbest.1 a (by simp)
  have hap := hrun.accepted_mem a (by simp)
  -- the paths accepted when the root was searched are those up to `a`
  have hto : ∀ p ∈ D.targets, D.key p ≤ D.key a → p ∈ before ++ [a] := fun p hp hle =>
    mem_of_key_le hinc (hall p ⟨hp, hle.trans_lt hlt⟩) hle
  have hfrom : ∀ p ∈ before ++ [a], p ∈ D.targets ∧ D.key p ≤ D.key a := by
    intro p hp
    have hle := key_le_of_mem hinc hp
    refine ⟨mem_targets_of_le ht (hrun.accepted_mem p ?_) (hle.trans hlt.le), hle⟩
    simp only [List.mem_append, List.mem_cons, List.not_mem_nil, or_false] at hp ⊢
    tauto
  obtain ⟨-, hti, -, e, he, hban⟩ := hdev.1
  have hil : i < t.length := (List.getElem?_eq_some_iff.mp he).1
  refine Or.inr ⟨a, ⟨mem_targets_of_le ht hap hlt.le, hlt⟩, i, hil, hti.symm, ?_, ?_⟩
  · intro p hp hle hsame heq
    exact hban ⟨p, hto p hp hle, hsame, heq.trans he⟩
  · intro p hp hap' hpi
    by_contra hnone
    have hpl := D.length_lt p hp.1.1 t ht.1 i (hpi.trans hti.symm) hil
    refine hp.2.not_ge (hdev.2 p ⟨hp.1.1, hpi, D.reach_zero p hp.1.1 hp.1.2 i, p[i],
      List.getElem?_eq_getElem hpl, ?_⟩)
    rintro ⟨c, hc, hsame, hce⟩
    exact hnone ⟨c, (hfrom c hc).1, (hfrom c hc).2, hsame,
      hce.trans (List.getElem?_eq_getElem hpl).symm⟩

/-- When the root of a discoverable path has been searched, the path is accepted or pending. -/
theorem Run.mem_of_discoverable (h : D.Run accepted pending) (ht : t ∈ D.targets)
    (hall : ∀ p ∈ D.better t, D.key p ≤ D.key a → p ∈ accepted) (ha : a ∈ accepted)
    (hlt : D.key a < D.key t) (hi : i < t.length) (hat : a.take i = t.take i)
    (hfree : ∀ p ∈ D.targets, D.key p ≤ D.key a → D.same (p.take i) (a.take i) → p[i]? ≠ t[i]?)
    (hbetween : ∀ p ∈ D.better t, D.key a < D.key p → p.take i = a.take i →
      ∃ b ∈ D.targets, D.key b ≤ D.key a ∧ D.same (b.take i) (a.take i) ∧ b[i]? = p[i]?) :
    t ∈ accepted ∨ t ∈ pending := by
  obtain ⟨before, after, rfl⟩ := List.append_of_mem ha
  have hap := h.accepted_mem a ha
  have hsearched : ∀ p ∈ D.targets, D.key p ≤ D.key a → p ∈ before ++ [a] := fun p hp hle =>
    mem_of_key_le h.increasing (hall p ⟨hp, hle.trans_lt hlt⟩ hle) hle
  have hdev : t ∈ D.deviations (before ++ [a]) a i := by
    refine ⟨ht.1, hat.symm, D.reach_zero t ht.1 ht.2 i, t[i], List.getElem?_eq_getElem hi, ?_⟩
    rintro ⟨c, hc, hsame, hce⟩
    have hle := key_le_of_mem h.increasing hc
    have hcp : c ∈ D.paths := h.accepted_mem c (by
      simp only [List.mem_append, List.mem_cons, List.not_mem_nil, or_false] at hc ⊢
      tauto)
    exact hfree c (mem_targets_of_le ht hcp (hle.trans hlt.le)) hle hsame
      (hce.trans (List.getElem?_eq_getElem hi).symm)
  obtain ⟨c, hc, hcdev, hle⟩ :=
    h.covered before a after i rfl (D.length_lt a hap t ht.1 i hat hi) t hdev
  -- the path found there is the one sought: anything better was banned
  rcases hle.eq_or_lt with heq | hct
  · obtain rfl := D.key_injective c hcdev.1 t ht.1 heq
    exact hc
  · exfalso
    have hctarget := mem_targets_of_le ht hcdev.1 hle
    obtain ⟨-, hca, -, e, he, hban⟩ := hcdev
    rcases lt_or_ge (D.key a) (D.key c) with hac | hca'
    · obtain ⟨d, hd, hda, hsame, hde⟩ := hbetween c ⟨hctarget, hct⟩ hac hca
      exact hban ⟨d, hsearched d hd hda, hsame, hde.trans he⟩
    · exact hban ⟨c, hsearched c hctarget hca', hca ▸ D.same_refl _, he⟩

/-- A discoverable path is accepted, once everything before it was, if fewer than `k` rank before
it. -/
theorem Finished.mem_of_discoverable (h : D.Finished k accepted) (ht : t ∈ D.targets)
    (hk : (D.better t).ncard < k) (hfin : D.targets.Finite)
    (hall : ∀ p ∈ D.better t, p ∈ accepted) (hd : D.Discoverable t) : t ∈ accepted := by
  by_contra hnot
  have hinc := h.increasing
  -- either the enumeration was exhausted, or it went past the path
  have hpast : D.Run accepted ∅ ∨ ∃ x ∈ accepted, D.key t < D.key x := by
    rcases h.stopped with hlen | ⟨-, hrun⟩
    · refine Or.inr (by_contra fun hnone => ?_)
      push Not at hnone
      have hsub : ∀ p ∈ accepted, p ∈ D.better t := by
        intro p hp
        have hpp := h.mem_paths hp
        refine ⟨mem_targets_of_le ht hpp (hnone p hp), (hnone p hp).lt_of_ne fun heq => hnot ?_⟩
        rwa [← D.key_injective p hpp t ht.1 heq]
      have hcard := Set.ncard_le_ncard (s := {p | p ∈ accepted}) hsub
        (hfin.subset fun q hq => hq.1)
      rw [h.ncard_accepted] at hcard
      omega
    · exact Or.inl hrun
  rcases hd with hleast | ⟨a, ha, i, hi, hat, hfree, hbetween⟩
  · -- the best path is accepted first
    have hhead : ∀ c, (∀ p ∈ D.paths, D.key c ≤ D.key p) → c ∈ D.paths → t = c := fun c hc hcp =>
      D.key_injective t ht.1 c hcp (le_antisymm (hleast c hcp) (hc t ht.1))
    rcases hpast with hrun | ⟨x, hx, -⟩
    · obtain ⟨c, hc, hcl⟩ := hrun.first
      have hc := hc.resolve_right (Set.notMem_empty c)
      exact hnot (hhead c hcl (h.mem_paths hc) ▸ hc)
    · cases accepted with
      | nil => cases hx
      | cons c accepted =>
        have hbest := h.head_isBest
        exact hnot (hhead c hbest.2 hbest.1 ▸ List.mem_cons_self)
  · have hmem := hall a ha
    rcases hpast with hrun | ⟨x, hx, hxt⟩
    · rcases hrun.mem_of_discoverable ht (fun p hp _ => hall p hp) hmem ha.2 hi hat hfree
        hbetween with hin | hin
      · exact hnot hin
      · exact hin
    · obtain ⟨front, rest, rfl⟩ := List.append_of_mem hx
      obtain ⟨pending, hrun, hbest⟩ := h.picked front x rest rfl
      have hfront : ∀ p ∈ D.better t, p ∈ front := by
        intro p hp
        have hpx := mem_of_key_le hinc (hall p hp) (hp.2.trans hxt).le
        rcases List.mem_append.mp hpx with hpf | hpx
        · exact hpf
        · rw [List.mem_singleton.mp hpx] at hp
          exact absurd hp.2 hxt.le.not_gt
      rcases hrun.mem_of_discoverable ht (fun p hp _ => hfront p hp) (hfront a ha) ha.2 hi hat
        hfree hbetween with hin | hin
      · exact hnot (List.mem_append_left _ hin)
      · exact hxt.not_ge (hbest.2 t hin)

/-- **Completeness**: the best `k` paths are all accepted exactly when they are all
discoverable. -/
theorem Finished.complete_iff (h : D.Finished k accepted) (hfin : D.targets.Finite) :
    (∀ t ∈ D.targets, (D.better t).ncard < k → t ∈ accepted) ↔
      ∀ t ∈ D.targets, (D.better t).ncard < k → D.Discoverable t := by
  constructor
  · intro hall t ht hk
    refine h.discoverable ht (hall t ht hk) fun p hp => ?_
    exact hall p hp.1 ((better_ncard_lt hfin hp).trans hk)
  · intro hd t ht hk
    -- the induction is on the number of better paths
    induction hn : (D.better t).ncard using Nat.strong_induction_on generalizing t with
    | _ n ih =>
      subst hn
      refine h.mem_of_discoverable ht hk hfin (fun p hp => ?_) (hd t ht hk)
      have hlt := better_ncard_lt hfin hp
      exact ih _ hlt p hp.1 (hlt.trans hk) rfl

/-- **Nothing better is omitted**, and nothing at all when fewer than `k` are accepted, exactly when
the best `k` paths are all accepted. -/
theorem Finished.omits_none_iff (h : D.Finished k accepted) (hfin : D.targets.Finite) :
    ((∀ t ∈ D.targets, t ∉ accepted → ∀ last, accepted.getLast? = some last →
        D.key last < D.key t) ∧
      (accepted.length < k → ∀ t ∈ D.targets, t ∈ accepted)) ↔
    ∀ t ∈ D.targets, (D.better t).ncard < k → t ∈ accepted := by
  constructor
  · rintro ⟨hlast, hfew⟩ t ht hk
    by_contra hnot
    rcases h.stopped with hlen | ⟨hlen, -⟩
    · obtain ⟨last, hl⟩ : ∃ last, accepted.getLast? = some last :=
        Option.ne_none_iff_exists'.mp fun hnone => by
          rw [List.getLast?_eq_none_iff] at hnone
          simp only [hnone, List.length_nil] at hlen
          omega
      obtain ⟨front, rfl⟩ := List.getLast?_eq_some_iff.mp hl
      have hlt := hlast t ht hnot last hl
      -- all of the accepted paths rank before the one that is missing
      have hsub : {p | p ∈ front ++ [last]} ⊆ D.better t := fun p hp => by
        have hle : D.key p ≤ D.key last := by
          have hinc : (front ++ last :: []).Pairwise (D.key · < D.key ·) := h.increasing
          exact key_le_of_mem hinc hp
        exact ⟨mem_targets_of_le ht (h.mem_paths hp) (hle.trans hlt.le), hle.trans_lt hlt⟩
      have := Set.ncard_le_ncard hsub (hfin.subset fun q hq => hq.1)
      rw [h.ncard_accepted] at this
      omega
    · exact hnot (hfew hlen t ht)
  · intro hall
    -- everything before the least path that is missing was accepted
    have hleast : ∀ t ∈ D.targets, t ∉ accepted → ∃ m ∈ D.targets, m ∉ accepted ∧
        D.key m ≤ D.key t ∧ D.better m ⊆ {p | p ∈ accepted} ∧ k ≤ (D.better m).ncard := by
      intro t ht hnot
      obtain ⟨m, ⟨hm, hmnot⟩, hmin⟩ := Set.exists_min_image {m | m ∈ D.targets ∧ m ∉ accepted} D.key
        (hfin.subset fun q hq => hq.1) ⟨t, ht, hnot⟩
      refine ⟨m, hm, hmnot, hmin t ⟨ht, hnot⟩, fun p hp => ?_, ?_⟩
      · by_contra hpnot
        exact hp.2.not_ge (hmin p ⟨hp.1, hpnot⟩)
      · by_contra hlt
        exact hmnot (hall m hm (not_le.mp hlt))
    have hfinite : {p | p ∈ accepted}.Finite := accepted.finite_toSet
    constructor
    · intro t ht hnot last hl
      obtain ⟨m, -, -, hmt, hsub, hk⟩ := hleast t ht hnot
      have hcard : {p | p ∈ accepted}.ncard ≤ (D.better m).ncard := by
        rw [h.ncard_accepted]
        exact h.length_le.trans hk
      have heq := Set.eq_of_subset_of_ncard_le hsub hcard hfinite
      have hmem : last ∈ D.better m := heq ▸ List.mem_of_getLast? hl
      exact hmem.2.trans_le hmt
    · intro hlen t ht
      by_contra hnot
      obtain ⟨m, -, -, -, hsub, hk⟩ := hleast t ht hnot
      have := Set.ncard_le_ncard hsub hfinite
      rw [h.ncard_accepted] at this
      omega

/-- **The classical case**: where only equal roots are the same, every path is discoverable. -/
theorem discoverable_of_same_imp_eq (hfin : D.targets.Finite)
    (hsame : ∀ p ∈ D.targets, ∀ q ∈ D.targets, ∀ i, D.same (p.take i) (q.take i) →
      p.take i = q.take i)
    (ht : t ∈ D.targets) : D.Discoverable t := by
  by_cases hleast : ∀ p ∈ D.paths, D.key t ≤ D.key p
  · exact Or.inl hleast
  push Not at hleast
  obtain ⟨p₀, hp₀, hlt₀⟩ := hleast
  have hb₀ : p₀ ∈ D.better t := ⟨mem_targets_of_le ht hp₀ hlt₀.le, hlt₀⟩
  -- the longest root that a better path shares, and the last better path that shares it
  let shared : ℕ → Prop := fun i => i ≤ t.length ∧ ∃ a ∈ D.better t, a.take i = t.take i
  classical
  have hshared : shared (Nat.findGreatest shared t.length) :=
    Nat.findGreatest_spec (Nat.zero_le _) ⟨Nat.zero_le _, p₀, hb₀, rfl⟩
  set i := Nat.findGreatest shared t.length with hidef
  obtain ⟨hil, a₀, ha₀, hat₀⟩ := hshared
  obtain ⟨a, ⟨ha, hat⟩, hlast⟩ := Set.exists_max_image {a | a ∈ D.better t ∧ a.take i = t.take i}
    D.key (hfin.subset fun q hq => hq.1.1) ⟨a₀, ha₀, hat₀⟩
  have hi : i < t.length := by
    refine hil.lt_of_ne fun heq => ?_
    rw [heq, List.take_length] at hat
    by_cases hal : a.length ≤ t.length
    · rw [List.take_of_length_le hal] at hat
      exact ha.2.ne (congrArg D.key hat)
    · have := D.length_lt t ht.1 a ha.1.1 t.length (by rw [List.take_length, hat]) (by omega)
      omega
  refine Or.inr ⟨a, ha, i, hi, hat, ?_, ?_⟩
  · intro p hp hle hs heq
    have hpt : p.take i = t.take i := (hsame p hp a ha.1 i hs).trans hat
    have hnext : shared (i + 1) :=
      ⟨hi, p, ⟨hp, hle.trans_lt ha.2⟩, by rw [List.take_add_one, List.take_add_one, hpt, heq]⟩
    have := Nat.le_findGreatest hi hnext
    omega
  · intro p hp hap hpa
    exact absurd (hlast p ⟨hp, hpa.trans hat⟩) hap.not_ge

end Deviation
