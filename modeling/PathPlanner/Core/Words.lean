import PathPlanner.Core.Canonical

/-!
# The words of primitive values

Every primitive write of a `ByteWriter` appends a word of its value, as long as the word fits. A
writer has written a word when it holds it, or has overflowed because the word does not fit.

## Main definitions

* `littleEndian`, `varWord`, `FixedId.word`, `boolWord`: the words of the primitive values
* `ByteWriter.Wrote`: the writer was given a word

## Main results

* `ByteWriter.Wrote.u32` and the like: what the primitive writes append
* `ByteWriter.Wrote.foldl`: what a loop appends
* `ByteWriter.Wrote.overflowed_eq_false_iff`: a word is written exactly when it fits
-/

namespace PathPlanner

/-! ## Words -/

/-- The `count` low bytes of a value, least significant first. -/
def littleEndian : ℕ → ℕ → List UInt8
  | 0, _ => []
  | count + 1, value => UInt8.ofNat (value % 256) :: littleEndian count (value / 256)

/-- Groups of seven bits, least significant first, with at most `rounds` continued groups. -/
def varGroups : ℕ → ℕ → List UInt8
  | 0, value => [UInt8.ofNat value]
  | rounds + 1, value =>
    if value ≥ 0x80 then UInt8.ofNat (value % 0x80 + 0x80) :: varGroups rounds (value / 0x80)
    else [UInt8.ofNat value]

/-- The word of a number of variable length. -/
def varWord (value : ℕ) : List UInt8 := varGroups 9 value

/-- The word of a flag. -/
def boolWord (value : Bool) : List UInt8 := [if value then 1 else 0]

/-- The word of a value that may be absent. -/
def optionWord {α : Type} (word : α → List UInt8) (o : Option α) : List UInt8 :=
  boolWord o.isSome ++ o.elim [] word

/-- The word of a list: its length and the words of its elements. -/
def listWord {α : Type} (word : α → List UInt8) (l : List α) : List UInt8 :=
  varWord l.length ++ l.flatMap word

/-- The word of a text. -/
def textWord (bytes : List UInt8) : List UInt8 := varWord bytes.length ++ bytes

/-- The word of an identity. -/
def FixedId.word {Tag : Type} {n : ℕ} (id : FixedId Tag n) : List UInt8 := id.bytes.toList

/-- The word of a digest. -/
def Sha256Digest.word (digest : Sha256Digest) : List UInt8 := digest.bytes.toList

@[simp] theorem length_littleEndian (count value : ℕ) : (littleEndian count value).length = count := by
  induction count generalizing value with
  | zero => rfl
  | succ count ih => rw [littleEndian, List.length_cons, ih]

@[simp] theorem length_boolWord (value : Bool) : (boolWord value).length = 1 := rfl

@[simp] theorem FixedId.length_word {Tag : Type} {n : ℕ} (id : FixedId Tag n) :
    id.word.length = n := by
  simp [FixedId.word]

@[simp] theorem Sha256Digest.length_word (digest : Sha256Digest) :
    digest.word.length = sha256Bytes := by
  simp [Sha256Digest.word, sha256Bytes]

theorem FixedId.word_injective {Tag : Type} {n : ℕ} :
    Function.Injective (FixedId.word : FixedId Tag n → List UInt8) :=
  fun _ _ h => FixedId.ext_iff.mpr (Vector.toList_inj.mp h)

/-- The word of a number of variable length has at most ten bytes. -/
theorem length_varGroups_le (rounds value : ℕ) :
    (varGroups rounds value).length ≤ rounds + 1 := by
  induction rounds generalizing value with
  | zero => exact le_rfl
  | succ rounds ih =>
    rw [varGroups]
    split_ifs
    · rw [List.length_cons]
      exact Nat.succ_le_succ (ih _)
    · simp

theorem littleEndian_eq_map (count value : ℕ) : littleEndian count value =
    (List.range count).map fun i => UInt8.ofNat (value / 2 ^ (8 * i) % 256) := by
  induction count generalizing value with
  | zero => rfl
  | succ count ih =>
    rw [littleEndian, ih, List.range_succ_eq_map, List.map_cons, List.map_map]
    congr 1
    · simp
    · refine List.map_congr_left fun i _ => ?_
      rw [Function.comp_apply, Nat.div_div_eq_div_mul]
      congr 3
      rw [Nat.mul_succ, pow_add, mul_comm]
      norm_num

/-! ## Writers -/

namespace ByteWriter

/-- The writer was given the word: it holds the word, or it has overflowed because the word does not
fit under the ceiling. Either way it holds no more than the ceiling allows. -/
structure Wrote (w : ByteWriter) (ceiling : ℕ) (word : List UInt8) : Prop where
  ceiling_eq : w.ceiling = ceiling
  overflowed_iff : w.overflowed = true ↔ ceiling < word.length
  data_eq : w.overflowed = false → w.data = word
  length_le : w.data.length ≤ ceiling

namespace Wrote

variable {w : ByteWriter} {ceiling : ℕ} {word : List UInt8}

theorem new (ceiling : ℕ) : (ByteWriter.new ceiling).Wrote ceiling [] where
  ceiling_eq := rfl
  overflowed_iff := by simp [ByteWriter.new]
  data_eq _ := rfl
  length_le := Nat.zero_le _

/-- A word is written exactly when it fits. -/
theorem overflowed_eq_false_iff (h : w.Wrote ceiling word) :
    w.overflowed = false ↔ word.length ≤ ceiling := by
  rw [← not_lt, ← h.overflowed_iff, Bool.not_eq_true]

/-- Nothing is written once the writer has overflowed. -/
theorem of_overflowed (h : w.Wrote ceiling word) (hover : w.overflowed = true)
    (value : List UInt8) : w.Wrote ceiling (word ++ value) := by
  refine ⟨h.ceiling_eq, ?_, fun hnot => ?_, h.length_le⟩
  · have hlt := h.overflowed_iff.mp hover
    rw [List.length_append]
    exact iff_of_true hover (by omega)
  · rw [hover] at hnot
    cases hnot

theorem putByte (h : w.Wrote ceiling word) (value : UInt8) :
    (w.putByte value).Wrote ceiling (word ++ [value]) := by
  unfold ByteWriter.putByte
  split_ifs with hover hfull
  · exact h.of_overflowed hover [value]
  · rw [h.data_eq (Bool.eq_false_iff.mpr hover), h.ceiling_eq] at hfull
    exact ⟨h.ceiling_eq, iff_of_true rfl (by simpa using hfull), (fun hnot => by cases hnot),
      h.length_le⟩
  · have hdata := h.data_eq (Bool.eq_false_iff.mpr hover)
    rw [hdata, h.ceiling_eq] at hfull
    refine ⟨h.ceiling_eq, iff_of_false hover (by simpa using hfull), fun _ => ?_, ?_⟩
    · change w.data ++ [value] = word ++ [value]
      rw [hdata]
    · change (w.data ++ [value]).length ≤ ceiling
      rw [hdata, List.length_append, List.length_singleton]
      omega

theorem put (h : w.Wrote ceiling word) (value : List UInt8) :
    (w.put value).Wrote ceiling (word ++ value) := by
  unfold ByteWriter.put
  split_ifs with hover hfull
  · exact h.of_overflowed hover value
  · rw [h.data_eq (Bool.eq_false_iff.mpr hover), h.ceiling_eq] at hfull
    refine ⟨h.ceiling_eq, iff_of_true rfl ?_, (fun hnot => by cases hnot), h.length_le⟩
    rw [List.length_append]
    omega
  · have hdata := h.data_eq (Bool.eq_false_iff.mpr hover)
    have hfits := h.overflowed_eq_false_iff.mp (Bool.eq_false_iff.mpr hover)
    rw [hdata, h.ceiling_eq] at hfull
    refine ⟨h.ceiling_eq, iff_of_false hover ?_, fun _ => ?_, ?_⟩
    · rw [List.length_append]
      omega
    · change w.data ++ value = word ++ value
      rw [hdata]
    · change (w.data ++ value).length ≤ ceiling
      rw [hdata, List.length_append]
      omega

/-- **A loop** appends the words of its elements. -/
theorem foldl {α : Type} {f : ByteWriter → α → ByteWriter} {W : α → List UInt8} {as : List α}
    (hf : ∀ a ∈ as, ∀ w word, w.Wrote ceiling word → (f w a).Wrote ceiling (word ++ W a))
    (h : w.Wrote ceiling word) : (as.foldl f w).Wrote ceiling (word ++ as.flatMap W) := by
  induction as generalizing w word with
  | nil => simpa using h
  | cons a as ih =>
    obtain ⟨ha, has⟩ := List.forall_mem_cons.mp hf
    rw [List.foldl_cons, List.flatMap_cons, ← List.append_assoc]
    exact ih has (ha w word h)

theorem putLittleEndian (h : w.Wrote ceiling word) (count value : ℕ) :
    (w.putLittleEndian count value).Wrote ceiling (word ++ littleEndian count value) := by
  rw [littleEndian_eq_map, List.map_eq_flatMap]
  exact h.foldl (f := fun w i => w.putByte (UInt8.ofNat (value / 2 ^ (8 * i) % 256)))
    fun i _ w word hw => hw.putByte _

theorem u16 (h : w.Wrote ceiling word) (value : ℕ) :
    (w.u16 value).Wrote ceiling (word ++ littleEndian 2 value) := h.putLittleEndian 2 value

theorem u32 (h : w.Wrote ceiling word) (value : ℕ) :
    (w.u32 value).Wrote ceiling (word ++ littleEndian 4 value) := h.putLittleEndian 4 value

theorem u64 (h : w.Wrote ceiling word) (value : ℕ) :
    (w.u64 value).Wrote ceiling (word ++ littleEndian 8 value) := h.putLittleEndian 8 value

theorem varU64 (h : w.Wrote ceiling word) (value : ℕ) :
    (w.varU64 value).Wrote ceiling (word ++ varWord value) := by
  suffices hgroups : ∀ rounds value (w : ByteWriter) (word : List UInt8), w.Wrote ceiling word →
      (w.putGroups value rounds).Wrote ceiling (word ++ varGroups rounds value) from
    hgroups 9 value w word h
  intro rounds
  induction rounds with
  | zero =>
    intro value w word h
    exact h.putByte _
  | succ rounds ih =>
    intro value w word h
    rw [ByteWriter.putGroups, varGroups]
    split_ifs
    · have hrest := ih (value / 0x80) _ _ (h.putByte (UInt8.ofNat (value % 0x80 + 0x80)))
      rw [List.append_assoc, List.singleton_append] at hrest
      exact hrest
    · exact h.putByte _

theorem fixedBytes (h : w.Wrote ceiling word) (value : List UInt8) :
    (w.fixedBytes value).Wrote ceiling (word ++ value) := h.put value

theorem id {Tag : Type} {n : ℕ} (h : w.Wrote ceiling word) (value : FixedId Tag n) :
    (w.id value).Wrote ceiling (word ++ value.word) := h.put _

theorem text (h : w.Wrote ceiling word) (value : List UInt8) :
    (w.text value).Wrote ceiling (word ++ textWord value) := by
  rw [textWord, ← List.append_assoc]
  exact (h.varU64 value.length).put value

theorem bool (h : w.Wrote ceiling word) (value : Bool) :
    (w.bool value).Wrote ceiling (word ++ boolWord value) := h.putByte _

/-- A value that may be absent. -/
theorem option {α : Type} {f : ByteWriter → α → ByteWriter} {W : α → List UInt8}
    (hf : ∀ w word a, w.Wrote ceiling word → (f w a).Wrote ceiling (word ++ W a))
    (h : w.Wrote ceiling word) (o : Option α) :
    (o.elim (w.bool o.isSome) (f (w.bool o.isSome))).Wrote ceiling
      (word ++ optionWord W o) := by
  cases o with
  | none => simpa [optionWord] using h.bool false
  | some a =>
    rw [optionWord, ← List.append_assoc]
    exact hf _ _ a (h.bool true)

/-- A list behind its length. -/
theorem list {α : Type} {f : ByteWriter → α → ByteWriter} {W : α → List UInt8} {as : List α}
    (hf : ∀ a ∈ as, ∀ w word, w.Wrote ceiling word → (f w a).Wrote ceiling (word ++ W a))
    (h : w.Wrote ceiling word) :
    (as.foldl f (w.varU64 as.length)).Wrote ceiling (word ++ listWord W as) := by
  rw [listWord, ← List.append_assoc]
  exact (h.varU64 as.length).foldl hf

end Wrote

end ByteWriter

end PathPlanner
