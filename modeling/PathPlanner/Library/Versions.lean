import Mathlib.Data.List.Basic

/-!
# Versions of a value

A value that is written again and again passes through versions: a new one begins wherever it differs
from what was written before it.

## Main definitions

* `Versions.count`: the number of versions of a sequence of values

## Main results

* `Versions.count_concat`: one more value begins a version unless it is the last one again
-/

namespace Versions

variable {δ : Type*} [DecidableEq δ]

/-- The number of versions that a sequence of values passes through. -/
def count : List δ → ℕ
  | [] => 0
  | [_] => 1
  | d :: e :: rest => if d = e then count (e :: rest) else count (e :: rest) + 1

/-- One more value begins a version unless it is the last one again. -/
theorem count_concat (values : List δ) (value : δ) : count (values ++ [value]) =
    if values.getLast? = some value then count values else count values + 1 := by
  induction values with
  | nil => rfl
  | cons d values ih =>
    cases values with
    | nil =>
      change (if d = value then 1 else 1 + 1) = if some d = some value then 1 else 1 + 1
      simp only [Option.some.injEq]
    | cons e rest =>
      rw [List.cons_append] at ih
      rw [List.cons_append, List.cons_append, count, count, ih, List.getLast?_cons_cons]
      -- whether the first two agree changes both sides alike
      split_ifs <;> rfl

end Versions
