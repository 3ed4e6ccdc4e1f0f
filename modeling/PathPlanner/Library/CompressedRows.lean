import Mathlib.Tactic

/-!
# Compressed rows

Entries listed row by row are addressed by one offset per row: the offset of a row is the number of
entries in the rows before it. The offsets are computed by counting the entries of each row one
position up and then summing along the array.

## Main definitions

* `CompressedRows.count`, `CompressedRows.accumulate`, `CompressedRows.offsets`: the computation

## Main results

* `CompressedRows.getD_offsets`: the offset of a row counts the entries before it
* `CompressedRows.mem_row_iff`: in a list ordered by row, the positions between two offsets are
  those of the entries of the row
-/

namespace CompressedRows

variable {α : Type} (row : α → ℕ)

/-- One more entry in the row of `x`. -/
def tally (counts : List ℕ) (x : α) : List ℕ := counts.modify (row x + 1) (· + 1)

/-- The number of entries of every row, one position up. -/
def count (n : ℕ) (xs : List α) : List ℕ := xs.foldl (tally row) (List.replicate (n + 1) 0)

/-- Add the sum up to position `i` to the position after it. -/
def accumulate (sums : List ℕ) (i : ℕ) : List ℕ :=
  sums.set (i + 1) (sums.getD (i + 1) 0 + sums.getD i 0)

/-- The offsets of `n` rows, with the end of the last one. -/
def offsets (n : ℕ) (xs : List α) : List ℕ := (List.range n).foldl accumulate (count row n xs)

variable {row} {n i : ℕ} {xs : List α}

theorem foldl_tally_spec {counts : List ℕ} : (xs.foldl (tally row) counts).length = counts.length ∧
    ∀ i < counts.length,
      (xs.foldl (tally row) counts).getD i 0 = counts.getD i 0 + xs.countP (row · + 1 = i) := by
  induction xs generalizing counts with
  | nil => simp
  | cons x xs ih =>
    obtain ⟨hlen, hget⟩ := @ih (tally row counts x)
    have hl : (tally row counts x).length = counts.length := List.length_modify ..
    refine ⟨by rw [List.foldl_cons, hlen, hl], fun i hi => ?_⟩
    rw [List.foldl_cons, hget i (hl ▸ hi), List.countP_cons]
    have hstep : (tally row counts x).getD i 0 =
        counts.getD i 0 + if row x + 1 = i then 1 else 0 := by
      simp only [tally, List.getD_eq_getElem?_getD, List.getElem?_modify,
        List.getElem?_eq_getElem hi]
      split_ifs <;> simp
    rw [hstep]
    simp only [decide_eq_true_eq]
    omega

theorem length_count : (count row n xs).length = n + 1 := by
  rw [count, foldl_tally_spec.1, List.length_replicate]

theorem getD_count (hi : i ≤ n) : (count row n xs).getD i 0 = xs.countP (row · + 1 = i) := by
  rw [count, foldl_tally_spec.2 i (by simp; omega)]
  simp [List.getD_eq_getElem?_getD, List.getElem?_replicate]
  split_ifs <;> rfl

theorem countP_lt_succ : xs.countP (row · < i + 1) =
    xs.countP (row · + 1 = i + 1) + xs.countP (row · < i) := by
  induction xs with
  | nil => rfl
  | cons x xs ih =>
    simp only [List.countP_cons, ih, decide_eq_true_eq]
    split_ifs <;> omega

/-- **The sums so far**: positions up to `m` hold sums, later ones still hold counts. -/
theorem foldl_accumulate_spec {m : ℕ} (hm : m ≤ n) :
    ((List.range m).foldl accumulate (count row n xs)).length = n + 1 ∧
    ∀ i ≤ n, ((List.range m).foldl accumulate (count row n xs)).getD i 0 =
      if i ≤ m then xs.countP (row · < i) else xs.countP (row · + 1 = i) := by
  induction m with
  | zero =>
    refine ⟨length_count, fun i hi => ?_⟩
    rw [List.range_zero, List.foldl_nil, getD_count hi]
    split_ifs with h0
    · obtain rfl := Nat.le_zero.mp h0
      simp
    · rfl
  | succ m ih =>
    obtain ⟨hlen, hget⟩ := ih (by omega)
    rw [List.range_succ, List.foldl_append, List.foldl_cons, List.foldl_nil]
    generalize (List.range m).foldl accumulate (count row n xs) = sums at hlen hget
    refine ⟨by rw [accumulate, List.length_set, hlen], fun i hi => ?_⟩
    by_cases him : i = m + 1
    · subst him
      rw [if_pos le_rfl, accumulate, List.getD_eq_getElem?_getD, List.getElem?_set_self (by omega),
        Option.getD_some, hget (m + 1) hi, hget m (by omega), if_neg (by omega), if_pos le_rfl,
        countP_lt_succ]
    · rw [accumulate, List.getD_eq_getElem?_getD, List.getElem?_set_ne (by omega),
        ← List.getD_eq_getElem?_getD, hget i hi]
      simp only [show i ≤ m ↔ i ≤ m + 1 by omega]

@[simp] theorem length_offsets : (offsets row n xs).length = n + 1 :=
  (foldl_accumulate_spec le_rfl).1

/-- **An offset** counts the entries of the rows before. -/
theorem getD_offsets (hi : i ≤ n) : (offsets row n xs).getD i 0 = xs.countP (row · < i) := by
  rw [offsets, (foldl_accumulate_spec le_rfl).2 i hi, if_pos hi]

/-- In a list ordered by row the entries of smaller rows come first. -/
theorem lt_countP_iff (hs : xs.Pairwise (row · ≤ row ·)) {k : ℕ} {x : α} (hk : xs[k]? = some x) :
    k < xs.countP (row · < i) ↔ row x < i := by
  induction xs generalizing k with
  | nil => simp at hk
  | cons y xs ih =>
    obtain ⟨hy, hs⟩ := List.pairwise_cons.mp hs
    rw [List.countP_cons]
    by_cases hyi : row y < i
    · rw [decide_eq_true hyi, if_pos rfl]
      cases k with
      | zero =>
        obtain rfl := Option.some.inj hk
        simpa using hyi
      | succ k => rw [Nat.succ_lt_succ_iff, ih hs hk]
    · have hzero : xs.countP (row · < i) = 0 := by
        rw [List.countP_eq_zero]
        intro z hz
        have := hy z hz
        simp only [decide_eq_true_eq]
        omega
      have hx : ¬ row x < i := by
        cases k with
        | zero => exact Option.some.inj hk ▸ hyi
        | succ k =>
          have := hy x (List.mem_of_getElem? hk)
          omega
      simp [hzero, hyi, hx]

/-- **The positions of a row** lie between its offset and the next one. -/
theorem mem_row_iff (hs : xs.Pairwise (row · ≤ row ·)) (hi : i < n) {k : ℕ} {x : α}
    (hk : xs[k]? = some x) :
    ((offsets row n xs).getD i 0 ≤ k ∧ k < (offsets row n xs).getD (i + 1) 0) ↔ row x = i := by
  rw [getD_offsets hi.le, getD_offsets hi, lt_countP_iff hs hk, ← not_lt, lt_countP_iff hs hk]
  omega

theorem offsets_le (hi : i < n) :
    (offsets row n xs).getD i 0 ≤ (offsets row n xs).getD (i + 1) 0 := by
  rw [getD_offsets hi.le, getD_offsets hi, countP_lt_succ]
  omega

theorem getD_offsets_last (hrow : ∀ x ∈ xs, row x < n) :
    (offsets row n xs).getD n 0 = xs.length := by
  rw [getD_offsets le_rfl, List.countP_eq_length]
  simpa using hrow

end CompressedRows
