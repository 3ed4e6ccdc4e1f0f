import Mathlib.Data.BitVec
import Mathlib.Tactic

/-!
# The seeded generator

The synthetic fabrics draw from a counter with an odd increment whose value is mixed. Bounded numbers
are drawn by rejection; a draw ends since the counter passes zero, and zero is mixed to zero, which
is accepted.

## Main definitions

* `SeededRandom`, `SeededRandom.next`: the generator
* `SeededRandom.below`, `SeededRandom.percent`: bounded draws

## Main results

* `SeededRandom.distance_add_increment`: the counter comes closer to zero
-/

namespace PathPlanner

/-- `SeededRandom`. -/
structure SeededRandom where
  state : BitVec 64

namespace SeededRandom

/-- The increment of the counter. -/
def increment : BitVec 64 := 0x9E3779B97F4A7C15

/-- The value that a counter is mixed to. -/
def mix (state : BitVec 64) : BitVec 64 :=
  let value := (state ^^^ (state >>> 30)) * 0xBF58476D1CE4E5B9
  let value := (value ^^^ (value >>> 27)) * 0x94D049BB133111EB
  value ^^^ (value >>> 31)

/-- `SeededRandom::Next`. -/
def next (r : SeededRandom) : BitVec 64 × SeededRandom :=
  let state := r.state + increment
  (mix state, ⟨state⟩)

/-- The values below it are a multiple of the bound. -/
def acceptBelow (bound : ℕ) : ℕ := (2 ^ 64 - 1) - (2 ^ 64 - 1) % bound

/-- How often the counter is incremented until it is zero. -/
def distance (state : BitVec 64) : ℕ := (-state * 0xF1DE83E19937733D).toNat

theorem increment_mul : increment * 0xF1DE83E19937733D = 1 := by decide

/-- Only zero is at no distance. -/
theorem eq_zero_of_distance {state : BitVec 64} (h : distance state = 0) : state = 0 := by
  have hproduct : -state * 0xF1DE83E19937733D = 0 := BitVec.eq_of_toNat_eq h
  have hinverse : -state * (increment * 0xF1DE83E19937733D) = 0 := by
    rw [mul_left_comm, hproduct, mul_zero]
  rw [increment_mul, mul_one] at hinverse
  exact neg_eq_zero.mp hinverse

theorem distance_add_increment {state : BitVec 64} (h : state ≠ 0) :
    distance (state + increment) < distance state := by
  have hpos : distance state ≠ 0 := fun hzero => h (eq_zero_of_distance hzero)
  have hstep : -(state + increment) * 0xF1DE83E19937733D =
      -state * 0xF1DE83E19937733D - 1 := by
    rw [neg_add, add_mul, neg_mul increment, increment_mul, sub_eq_add_neg]
  unfold distance at hpos ⊢
  have hone : (1 : BitVec 64).toNat = 1 := rfl
  have hlt := (-state * 0xF1DE83E19937733D).isLt
  rw [hstep, BitVec.toNat_sub, hone]
  omega

theorem acceptBelow_pos {bound : UInt32} (h : 1 < bound.toNat) : 0 < acceptBelow bound.toNat := by
  have hbound := bound.toNat_lt
  have hmod := Nat.mod_lt (2 ^ 64 - 1) (show 0 < bound.toNat by omega)
  unfold acceptBelow
  omega

/-- The loop of `SeededRandom::Below`. -/
def draw (r : SeededRandom) (bound : UInt32) (hbound : 1 < bound.toNat) : ℕ × SeededRandom :=
  if r.next.1.toNat < acceptBelow bound.toNat then (r.next.1.toNat % bound.toNat, r.next.2)
  else r.next.2.draw bound hbound
termination_by distance (r.state + increment)
decreasing_by
  have hrejected : ¬ r.next.1.toNat < acceptBelow bound.toNat := by assumption
  refine distance_add_increment fun hzero => hrejected ?_
  -- zero is mixed to zero, which is accepted
  have hmix : r.next.1 = mix 0 := congrArg mix hzero
  rw [hmix]
  exact acceptBelow_pos hbound

/-- `SeededRandom::Below`. -/
def below (r : SeededRandom) (bound : UInt32) : ℕ × SeededRandom :=
  if h : bound.toNat ≤ 1 then (0, r) else r.draw bound (not_le.mp h)

/-- `SeededRandom::Percent`. -/
def percent (r : SeededRandom) (percent : UInt32) : Bool × SeededRandom :=
  let (value, r) := r.below 100
  (value < percent.toNat, r)

end SeededRandom

end PathPlanner
