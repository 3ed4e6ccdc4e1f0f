import Mathlib.Data.List.Basic
import Mathlib.Data.List.Count
import Mathlib.Data.List.Duplicate
import Mathlib.Data.List.Perm.Basic
import Mathlib.Tactic

/-!
# Arrangements without equal neighbours

A test for duplicates that compares neighbours depends on the order of the list. When some key is
repeated there is an arrangement in which two records of that key stand next to each other; and
there is one without equal neighbours as long as no key belongs to more than half of the records,
rounded up.

## Main definitions

* `IsSpread key xs`: neighbours have different keys
* `IsCrowded key xs`: some key belongs to more than half of the records, rounded up

## Main results

* `exists_perm_not_isSpread_iff`: when duplicates can be brought together
* `exists_perm_isSpread_iff`: when a list can be spread
-/

namespace Spread

variable {α κ : Type} {key : α → κ} {xs : List α}

/-- Neighbours have different keys. -/
def IsSpread (key : α → κ) (xs : List α) : Prop := xs.IsChain fun a b => key a ≠ key b

/-- Whether a list is spread is seen from its keys. -/
theorem IsSpread.of_map_eq {ys : List α} (h : IsSpread key xs) (hkeys : xs.map key = ys.map key) :
    IsSpread key ys := by
  unfold IsSpread at h ⊢
  rw [← List.isChain_map (R := fun j k => j ≠ k)] at h ⊢
  rwa [← hkeys]

/-- Records of different keys are spread in any order. -/
theorem isSpread_of_nodup (h : (xs.map key).Nodup) : IsSpread key xs :=
  (List.pairwise_map.mp h).isChain

/-- A record of a key that occurs can be moved to the front. -/
theorem exists_perm_cons {k : κ} (h : k ∈ xs.map key) :
    ∃ a rest, key a = k ∧ (a :: rest).Perm xs := by
  obtain ⟨a, ha, hk⟩ := List.mem_map.mp h
  obtain ⟨s, t, rfl⟩ := List.append_of_mem ha
  exact ⟨a, s ++ t, hk, List.perm_middle.symm⟩

/-- **When duplicates can be brought together**: some key is repeated. -/
theorem exists_perm_not_isSpread_iff :
    (∃ ys, ys.Perm xs ∧ ¬ IsSpread key ys) ↔ ¬ (xs.map key).Nodup := by
  constructor
  · rintro ⟨ys, hperm, hspread⟩ hnodup
    exact hspread (isSpread_of_nodup ((hperm.map key).nodup_iff.mpr hnodup))
  · intro h
    induction xs with
    | nil => exact absurd List.nodup_nil h
    | cons a xs ih =>
      rw [List.map_cons, List.nodup_cons, not_and_or, not_not] at h
      rcases h with hmem | hrest
      · obtain ⟨b, rest, hb, hperm⟩ := exists_perm_cons hmem
        refine ⟨a :: b :: rest, hperm.cons a, fun hspread => ?_⟩
        exact (List.isChain_cons_cons.mp hspread).1 hb.symm
      · -- the record that is left is put at the end
        obtain ⟨ys, hperm, hys⟩ := ih hrest
        refine ⟨ys ++ [a], (List.perm_append_singleton a ys).trans (hperm.cons a), fun hspread => ?_⟩
        exact hys (hspread.left_of_append)

variable [DecidableEq κ]

/-- In a spread list no key belongs to more than half of the records, rounded up. -/
theorem IsSpread.count_le (h : IsSpread key xs) (k : κ) :
    2 * (xs.map key).count k ≤ xs.length + 1 := by
  -- two records are taken at a time: at most one of them has the key
  induction xs using List.twoStepInduction with
  | nil => simp
  | singleton a =>
    rw [List.map_singleton, List.length_singleton]
    exact Nat.mul_le_mul_left 2 List.count_le_length
  | cons_cons a b rest ih _ =>
    obtain ⟨hne, hrest⟩ := List.isChain_cons_cons.mp h
    have ih := ih hrest.tail
    simp only [List.map_cons, List.count_cons, List.length_cons, beq_iff_eq]
    have hone : (if key b = k then 1 else 0) + (if key a = k then 1 else 0) ≤ 1 := by
      split_ifs with hb ha
      · exact absurd (ha.trans hb.symm) hne
      all_goals decide
    omega

/-- Different keys belong to different records. -/
theorem count_add_count_le {ks : List κ} {j k : κ} (h : j ≠ k) :
    ks.count j + ks.count k ≤ ks.length := by
  induction ks with
  | nil => exact le_rfl
  | cons i ks ih =>
    simp only [List.count_cons, List.length_cons, beq_iff_eq]
    split_ifs with hj hk
    · exact absurd (hj.symm.trans hk) h
    all_goals omega

/-- A list can be spread behind a record of the key `before`. The induction is on the length: a key
that belongs to more than half of the records comes first, and when there is none any other key
than `before` does. -/
theorem exists_perm_isSpread_after (n : ℕ) (hn : xs.length = n)
    (h : ∀ k, 2 * (xs.map key).count k ≤ n + 1) (before : Option κ)
    (hbefore : ∀ k ∈ before, 2 * (xs.map key).count k ≤ n) :
    ∃ ys, ys.Perm xs ∧ IsSpread key ys ∧ ∀ a ∈ ys.head?, some (key a) ≠ before := by
  induction n generalizing xs before with
  | zero =>
    obtain rfl := List.length_eq_zero_iff.mp hn
    exact ⟨[], .refl _, .nil, fun a ha => absurd ha (by simp)⟩
  | succ n ih =>
    -- the key that comes first leaves no other key with more than half of the rest
    obtain ⟨first, hmem, hne, hothers⟩ : ∃ first ∈ xs.map key, some first ≠ before ∧
        ∀ k ≠ first, 2 * (xs.map key).count k ≤ n + 1 := by
      have hlength : (xs.map key).length = n + 1 := (List.length_map key).trans hn
      by_cases hmost : ∃ k, n + 1 < 2 * (xs.map key).count k
      · obtain ⟨k, hk⟩ := hmost
        refine ⟨k, List.count_pos_iff.mp (by omega), fun hsome => ?_, fun j hj => ?_⟩
        · exact absurd (hbefore k hsome.symm) (not_le.mpr hk)
        · have : (xs.map key).count j + (xs.map key).count k ≤ (xs.map key).length :=
            count_add_count_le hj
          omega
      · push Not at hmost
        by_contra hnone
        push Not at hnone
        have hall : ∀ k ∈ xs.map key, some k = before := fun k hk => by
          by_contra hne
          obtain ⟨j, -, hj⟩ := hnone k hk hne
          exact absurd (hmost j) (not_le.mpr hj)
        -- every record has the key `before`, which is too many
        cases hkeys : xs.map key with
        | nil =>
          rw [hkeys] at hlength
          cases hlength
        | cons k ks =>
          have hk := hall k (hkeys ▸ List.mem_cons_self)
          have hcount : (xs.map key).count k = (xs.map key).length :=
            List.count_eq_length.mpr fun j hj => Option.some.inj (hk.trans (hall j hj).symm)
          have := hmost k
          omega
    obtain ⟨a, rest, rfl, hperm⟩ := exists_perm_cons hmem
    have hlength : rest.length = n := by
      have := hperm.length_eq
      rw [List.length_cons, hn] at this
      exact Nat.succ_injective this
    have hcount (k : κ) : (xs.map key).count k =
        (rest.map key).count k + if key a = k then 1 else 0 := by
      rw [← (hperm.map key).count_eq, List.map_cons, List.count_cons]
      simp only [beq_iff_eq]
    have hrest (k : κ) : 2 * (rest.map key).count k ≤ n + 1 := by
      have hk := hcount k
      split_ifs at hk with hfirst
      · have := h k
        omega
      · have := hothers k (Ne.symm hfirst)
        omega
    obtain ⟨ys, hys, hspread, hhead⟩ := ih hlength hrest (some (key a)) fun k hk => by
      obtain rfl := Option.some.inj hk
      have := h (key a)
      have := hcount (key a)
      rw [if_pos rfl] at this
      omega
    refine ⟨a :: ys, (hys.cons a).trans hperm, ?_, ?_⟩
    · exact hspread.cons fun b hb hab => hhead b hb (congrArg some hab.symm)
    · rintro b hb
      rw [List.head?_cons] at hb
      exact Option.some.inj hb ▸ hne

/-- Some key belongs to more than half of the records, rounded up. -/
def IsCrowded (key : α → κ) (xs : List α) : Prop := ∃ k, xs.length + 1 < 2 * (xs.map key).count k

/-- **When a list can be spread**: it is not crowded. -/
theorem exists_perm_isSpread_iff :
    (∃ ys, ys.Perm xs ∧ IsSpread key ys) ↔ ¬ IsCrowded key xs := by
  constructor
  · rintro ⟨ys, hperm, hspread⟩ ⟨k, hk⟩
    rw [← (hperm.map key).count_eq, ← hperm.length_eq] at hk
    exact absurd (hspread.count_le k) (not_le.mpr hk)
  · intro h
    have hcount (k : κ) : 2 * (xs.map key).count k ≤ xs.length + 1 :=
      not_lt.mp fun hk => h ⟨k, hk⟩
    obtain ⟨ys, hperm, hspread, -⟩ :=
      exists_perm_isSpread_after xs.length rfl hcount none fun _ hk => absurd hk (by simp)
    exact ⟨ys, hperm, hspread⟩

end Spread
