import Mathlib.Data.List.Basic
import Mathlib.Tactic

/-!
# LEB128

A natural number is written in groups of seven bits, least significant first, and every byte but the
last has its high bit set. A number has many forms, since groups of zero can be appended; the one
that does not end in a group of zero is the only shortest one.

## Main definitions

* `IsForm bytes v`: the bytes are a form of the number
* `IsShortestForm bytes v`: no form of the number has fewer bytes
* `IsCanonical bytes`: a single byte, or bytes that do not end in zero

## Main results

* `isShortestForm_iff`: the canonical form is the only shortest one
-/

namespace Leb128

/-- The bytes are a form of the number. -/
inductive IsForm : List UInt8 → ℕ → Prop
  | last {b : UInt8} (h : b.toNat < 128) : IsForm [b] b.toNat
  | more {b : UInt8} {bs : List UInt8} {v : ℕ} (h : 128 ≤ b.toNat) (hs : IsForm bs v) :
      IsForm (b :: bs) (b.toNat - 128 + 128 * v)

/-- No form of the number has fewer bytes. -/
def IsShortestForm (bytes : List UInt8) (v : ℕ) : Prop :=
  IsForm bytes v ∧ ∀ other, IsForm other v → bytes.length ≤ other.length

/-- A single byte, or bytes that do not end in zero. -/
def IsCanonical (bytes : List UInt8) : Prop := bytes.length = 1 ∨ bytes.getLast? ≠ some 0

variable {bytes other : List UInt8} {v : ℕ}

theorem IsForm.ne_nil (h : IsForm bytes v) : bytes ≠ [] := by
  cases h <;> exact List.cons_ne_nil _ _

/-- A form that does not end in zero is of a number that is not zero. -/
theorem IsForm.pos (h : IsForm bytes v) (hlast : bytes.getLast? ≠ some 0) : 0 < v := by
  induction h with
  | @last b hb =>
    refine Nat.pos_of_ne_zero fun hzero => hlast ?_
    rw [List.getLast?_singleton, UInt8.toNat_inj.mp (hzero.trans UInt8.toNat_zero.symm)]
  | @more b bs v hb hs ih =>
    obtain ⟨c, cs, rfl⟩ := List.exists_cons_of_ne_nil hs.ne_nil
    rw [List.getLast?_cons_cons] at hlast
    have := ih hlast
    omega

/-- **The canonical form** has no more bytes than another one, and is the only one of its length. -/
theorem IsForm.length_le (h : IsForm bytes v) (hc : IsCanonical bytes) (h' : IsForm other v) :
    bytes.length ≤ other.length ∧ (other.length ≤ bytes.length → other = bytes) := by
  induction h generalizing other with
  | @last b hb =>
    rw [List.length_singleton]
    refine ⟨List.length_pos_iff.mpr h'.ne_nil, fun hlength => ?_⟩
    generalize hv : b.toNat = v at h'
    cases h' with
    | @last c hc => rw [UInt8.toNat_inj.mp hv]
    | @more c cs w hc hs =>
      rw [List.length_cons] at hlength
      exact absurd (List.length_pos_iff.mpr hs.ne_nil) (by omega)
  | @more b bs v hb hs ih =>
    obtain ⟨c, cs, rfl⟩ := List.exists_cons_of_ne_nil hs.ne_nil
    have hlast : (c :: cs).getLast? ≠ some 0 := by
      rcases hc with hlength | hlast
      · rw [List.length_cons, List.length_cons] at hlength
        omega
      · rwa [List.getLast?_cons_cons] at hlast
    -- the number does not fit a single group, and its groups are determined
    have hpos := hs.pos hlast
    have hb' := b.toNat_lt
    generalize hv : b.toNat - 128 + 128 * v = w at h'
    cases h' with
    | @last d hd => omega
    | @more d ds u hd hds =>
      have hd' := d.toNat_lt
      obtain rfl : u = v := by omega
      obtain rfl : d = b := UInt8.toNat_inj.mp (by omega)
      obtain ⟨hle, heq⟩ := ih (Or.inr hlast) hds
      exact ⟨Nat.succ_le_succ hle, fun hlength => congrArg _ (heq (Nat.le_of_succ_le_succ hlength))⟩

/-- **The only shortest form** is the canonical one. -/
theorem isShortestForm_iff (h : IsForm bytes v) (hc : IsCanonical bytes) :
    IsShortestForm other v ↔ other = bytes := by
  constructor
  · rintro ⟨hform, hshortest⟩
    exact (h.length_le hc hform).2 (hshortest bytes h)
  · rintro rfl
    exact ⟨h, fun _ hother => (h.length_le hc hother).1⟩

end Leb128
