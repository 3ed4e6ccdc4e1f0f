import Mathlib.Data.Nat.Digits.Lemmas

/-!
# Canonical numerals

A numeral in a base is a list of digits, most significant first. It is canonical when it has a digit
and no leading zero, unless it is the numeral of zero. Every number has exactly one canonical
numeral. A numeral is read digit by digit, and the value read so far only grows.

## Main definitions

* `Numeral.extend`, `Numeral.value`: reading more digits, and all of them
* `Numeral.IsCanonical`: a numeral without a leading zero
* `Numeral.digits`: the canonical numeral of a number

## Main results

* `IsCanonical.eq_digits`: **a canonical numeral** is that of its value
* `isCanonical_digits`, `value_digits`: the numeral of a number is canonical, and has its value
* `length_digits_le`: a number below a power of the base has a short numeral
* `le_sub_div_iff`: the test that one more digit stays within a bound
-/

namespace Numeral

variable {b n d k bound : ℕ} {ds es : List ℕ}

/-! ## Reading -/

/-- The value after more digits. -/
def extend (b n : ℕ) (ds : List ℕ) : ℕ := ds.foldl (fun n d => n * b + d) n

/-- The value of a numeral. -/
def value (b : ℕ) (ds : List ℕ) : ℕ := extend b 0 ds

@[simp] theorem extend_nil : extend b n [] = n := rfl

@[simp] theorem extend_cons : extend b n (d :: ds) = extend b (n * b + d) ds := rfl

theorem extend_append : extend b n (ds ++ es) = extend b (extend b n ds) es := List.foldl_append

@[simp] theorem value_singleton : value b [d] = d := by simp [value]

/-- More digits do not make the value smaller. -/
theorem le_extend (hb : 0 < b) : n ≤ extend b n ds := by
  induction ds generalizing n with
  | nil => exact le_rfl
  | cons d ds ih =>
    have hstep : n ≤ n * b + d := (Nat.le_mul_of_pos_right n hb).trans (Nat.le_add_right _ d)
    exact hstep.trans ih

/-- **The test before a digit**: with a division that rounds down it is exact. -/
theorem le_sub_div_iff (hb : 0 < b) (hd : d ≤ bound) :
    n ≤ (bound - d) / b ↔ n * b + d ≤ bound := by
  rw [Nat.le_div_iff_mul_le hb]
  omega

/-- The value in terms of the digits from the least significant one. -/
theorem value_eq_ofDigits : value b ds = Nat.ofDigits b ds.reverse := by
  induction ds using List.reverseRecOn with
  | nil => rfl
  | append_singleton ds d ih =>
    rw [value, extend_append, List.reverse_append, List.reverse_singleton, List.singleton_append,
      Nat.ofDigits_cons, ← ih]
    change value b ds * b + d = d + b * value b ds
    ring

/-! ## Canonical numerals -/

/-- A numeral with a digit, and without a leading zero unless it is the only digit. -/
structure IsCanonical (b : ℕ) (ds : List ℕ) : Prop where
  ne_nil : ds ≠ []
  lt_base : ∀ d ∈ ds, d < b
  head_ne_zero : 1 < ds.length → ds.head? ≠ some 0

/-- The canonical numeral of a number. -/
def digits (b n : ℕ) : List ℕ := if n = 0 then [0] else (Nat.digits b n).reverse

theorem value_digits : value b (digits b n) = n := by
  unfold digits
  split_ifs with hn
  · rw [value_singleton, hn]
  · rw [value_eq_ofDigits, List.reverse_reverse, Nat.ofDigits_digits]

theorem isCanonical_digits (hb : 1 < b) : IsCanonical b (digits b n) := by
  unfold digits
  split_ifs with hn
  · refine ⟨List.cons_ne_nil 0 [], ?_, fun h => absurd h (lt_irrefl 1)⟩
    intro d hd
    rw [List.mem_singleton.mp hd]
    exact Nat.zero_lt_of_lt hb
  · have hne : Nat.digits b n ≠ [] := Nat.digits_ne_nil_iff_ne_zero.mpr hn
    refine ⟨fun h => hne (List.reverse_eq_nil_iff.mp h), ?_, fun _ => ?_⟩
    · intro d hd
      exact Nat.digits_lt_base hb (List.mem_reverse.mp hd)
    · rw [List.head?_reverse, List.getLast?_eq_getLast_of_ne_nil hne]
      exact fun h => Nat.getLast_digit_ne_zero b hn (Option.some.inj h)

/-- **A canonical numeral** is that of its value. -/
theorem IsCanonical.eq_digits (hb : 1 < b) (h : IsCanonical b ds) : ds = digits b (value b ds) := by
  have hreverse : ∀ d ∈ ds.reverse, d < b := fun d hd => h.lt_base d (List.mem_reverse.mp hd)
  by_cases hlast : ∀ hne : ds.reverse ≠ [], ds.reverse.getLast hne ≠ 0
  · -- without a leading zero these are the digits of the value
    have hdigits : Nat.digits b (value b ds) = ds.reverse := by
      rw [value_eq_ofDigits]
      exact Nat.digits_ofDigits b hb ds.reverse hreverse hlast
    have hvalue : value b ds ≠ 0 := by
      intro hzero
      rw [hzero, Nat.digits_zero] at hdigits
      exact h.ne_nil (List.reverse_eq_nil_iff.mp hdigits.symm)
    rw [digits, if_neg hvalue, hdigits, List.reverse_reverse]
  · -- a leading zero is the only digit
    push Not at hlast
    obtain ⟨hne, hzero⟩ := hlast
    cases ds with
    | nil => exact absurd rfl h.ne_nil
    | cons d ds =>
      rw [List.getLast_reverse, List.head_cons] at hzero
      have hshort : ¬ 1 < (d :: ds).length := fun hlong =>
        h.head_ne_zero hlong (congrArg some hzero)
      have hnil : ds = [] := by
        rw [List.length_cons] at hshort
        exact List.length_eq_zero_iff.mp (by omega)
      rw [hnil, hzero, value_singleton, digits, if_pos rfl]

/-- A number below a power of the base has no more digits than the power. -/
theorem length_digits_le (hb : 1 < b) (hk : 0 < k) (hn : n < b ^ k) : (digits b n).length ≤ k := by
  unfold digits
  split_ifs
  · exact hk
  · rw [List.length_reverse]
    exact (Nat.digits_length_le_iff hb n).mpr hn

end Numeral
