import Mathlib.Data.Nat.Bitwise
import PathPlanner.Core.Reader
import PathPlanner.Library.Leb128

/-!
# The reader with its latch

The decoders stop at the first read that fails. A `ByteReader` of the source goes on: a read that
fails latches it, and every later read fails. Here it is modelled with its latch and its words of
64 bits, and its numbers of variable length are those of the decoder.

## Main definitions

* `LatchedReader`: a reader with its latch
* `LatchedReader.varU64` and the like: the reads
* `ReaderCall`, `LatchedReader.perform`: a read, and whether it succeeds

## Main results

* `LatchedReader.varU64_readsLike`: the reads of numbers are those of the decoder
* `LatchedReader.varU64_leb128`: **numbers are read exactly from their shortest form**
-/

namespace PathPlanner

open Decoder Leb128

/-- `ByteReader`. -/
structure LatchedReader extends ByteReader where
  failed : Bool

namespace LatchedReader

/-- A reader at a position, not latched. -/
def start (r : ByteReader) : LatchedReader := { r with failed := false }

/-- The reader, latched. -/
def fail (r : LatchedReader) : LatchedReader := { r with failed := true }

/-- `ByteReader::View`: the next bytes. -/
def view (r : LatchedReader) (count : ℕ) : Option (List UInt8) × LatchedReader :=
  if r.failed then (none, r)
  else if h : count > r.data.length - r.position then (none, r.fail)
  else
    (some ((r.data.drop r.position).take count),
      { r with
        position := r.position + count
        inBounds := by have := r.inBounds; omega })

/-- `ByteReader::U8`. -/
def u8 (r : LatchedReader) : Option UInt8 × LatchedReader :=
  match r.view 1 with
  | (some bytes, r') => (some (bytes.headD 0), r')
  | (none, r') => (none, r')

/-- `ByteReader::U16`, `U32` and `U64`: bytes, least significant first. -/
def uint (r : LatchedReader) (count : ℕ) : Option UInt64 × LatchedReader :=
  match r.view count with
  | (some bytes, r') =>
    (some (bytes.zipIdx.foldl
      (fun value (byte, i) => value ||| (byte.toUInt64 <<< UInt64.ofNat (8 * i))) 0), r')
  | (none, r') => (none, r')

/-- The loop of `ByteReader::VarU64`, with the number of rounds that are left, the number of rounds
before and the value of their groups. -/
def groups : ℕ → ℕ → UInt64 → LatchedReader → Option UInt64 × LatchedReader
  | 0, _, _, r => (none, r.fail)
  | rounds + 1, i, value, r =>
    match r.u8 with
    | (none, r) => (none, r)
    | (some byte, r) =>
      let low := byte &&& 0x7F
      if 7 * i = 63 ∧ low > 1 then (none, r.fail)
      else
        let value := value ||| (low.toUInt64 <<< UInt64.ofNat (7 * i))
        if byte &&& 0x80 = 0 then
          if i > 0 ∧ low = 0 then (none, r.fail) else (some value, r)
        else groups rounds (i + 1) value r

/-- `ByteReader::VarU64`. -/
def varU64 (r : LatchedReader) : Option UInt64 × LatchedReader := groups 10 0 0 r

/-- `ByteReader::Text`. -/
def text (r : LatchedReader) : Option (List UInt8) × LatchedReader :=
  match r.varU64 with
  | (none, r) => (none, r)
  | (some length, r) =>
    if length.toNat > r.data.length then (none, r.fail) else r.view length.toNat

/-- `ByteReader::Bool`. -/
def bool (r : LatchedReader) : Option Bool × LatchedReader :=
  match r.u8 with
  | (none, r) => (none, r)
  | (some value, r) => if value > 1 then (none, r.fail) else (some (value = 1), r)

end LatchedReader

/-- A read of a `ByteReader`. -/
inductive ReaderCall
  | u8
  | u16
  | u32
  | u64
  | varU64
  | text
  | bool
  | view (count : ℕ)
  | fixedBytes (count : ℕ)

namespace LatchedReader

/-- A read, and whether it succeeds. -/
def perform (r : LatchedReader) : ReaderCall → Bool × LatchedReader
  | .u8 => (r.u8.1.isSome, r.u8.2)
  | .u16 => ((r.uint 2).1.isSome, (r.uint 2).2)
  | .u32 => ((r.uint 4).1.isSome, (r.uint 4).2)
  | .u64 => ((r.uint 8).1.isSome, (r.uint 8).2)
  | .varU64 => (r.varU64.1.isSome, r.varU64.2)
  | .text => (r.text.1.isSome, r.text.2)
  | .bool => (r.bool.1.isSome, r.bool.2)
  | .view count | .fixedBytes count => ((r.view count).1.isSome, (r.view count).2)

/-! ## The latch -/

section Latch

variable {r : LatchedReader}

theorem view_of_failed (h : r.failed = true) (count : ℕ) : r.view count = (none, r) := by
  unfold view
  rw [if_pos h]

theorem u8_of_failed (h : r.failed = true) : r.u8 = (none, r) := by
  unfold u8
  rw [view_of_failed h]

theorem varU64_of_failed (h : r.failed = true) : r.varU64 = (none, r) := by
  unfold varU64 groups
  rw [u8_of_failed h]

/-- **The latch**: once latched, every read fails and changes nothing. -/
theorem perform_of_failed (h : r.failed = true) (call : ReaderCall) :
    r.perform call = (false, r) := by
  cases call with
  | u8 => simp [perform, u8_of_failed h]
  | u16 | u32 | u64 => simp [perform, uint, view_of_failed h]
  | varU64 => simp [perform, varU64_of_failed h]
  | text => simp [perform, text, varU64_of_failed h]
  | bool => simp [perform, bool, u8_of_failed h]
  | view count | fixedBytes count => simp [perform, view_of_failed h]

end Latch

/-! ## Groups -/

section Groups

theorem toNat_and_low (byte : UInt8) : (byte &&& 0x7F).toNat = byte.toNat % 0x80 := by
  rw [UInt8.toNat_and]
  exact Nat.and_two_pow_sub_one_eq_mod byte.toNat 7

theorem and_high_eq_zero_iff (byte : UInt8) : byte &&& 0x80 = 0 ↔ byte.toNat < 0x80 := by
  have hbyte := byte.toNat_lt
  rw [← UInt8.toNat_inj, UInt8.toNat_and]
  change byte.toNat &&& 2 ^ 7 = 0 ↔ _
  rw [Nat.and_comm, Nat.two_pow_and, Nat.testBit_eq_decide_div_mod_eq]
  by_cases h : byte.toNat / 2 ^ 7 % 2 = 1
  · simp only [h, decide_true, Bool.toNat_true]
    omega
  · simp only [h, decide_false, Bool.toNat_false]
    omega

/-- A group is set above the groups before it. -/
theorem toNat_or_shiftLeft {value : UInt64} {low : UInt8} {i : ℕ} (hi : i < 10)
    (hvalue : value.toNat < 2 ^ (7 * i)) (hlow : low.toNat < 0x80)
    (hbit : ¬ (7 * i = 63 ∧ low.toNat > 1)) :
    (value ||| (low.toUInt64 <<< UInt64.ofNat (7 * i))).toNat =
      value.toNat + low.toNat * 2 ^ (7 * i) := by
  have hshift : (UInt64.ofNat (7 * i)).toNat % 64 = 7 * i := by
    have hsmall : 7 * i < UInt64.size := by
      simp only [UInt64.size]
      omega
    rw [UInt64.toNat_ofNat_of_lt' hsmall]
    omega
  have hfits : low.toNat * 2 ^ (7 * i) < 2 ^ 64 := by
    rcases Nat.lt_succ_iff_lt_or_eq.mp hi with hlt | rfl
    · calc low.toNat * 2 ^ (7 * i) < 2 ^ 7 * 2 ^ (7 * i) :=
          (Nat.mul_lt_mul_right (by positivity)).mpr hlow
        _ = 2 ^ (7 + 7 * i) := (pow_add 2 7 (7 * i)).symm
        _ ≤ 2 ^ 64 := Nat.pow_le_pow_right (by decide) (by omega)
    · omega
  rw [UInt64.toNat_or, UInt64.toNat_shiftLeft, hshift, UInt8.toNat_toUInt64, Nat.shiftLeft_eq,
    Nat.mod_eq_of_lt hfits, Nat.or_comm, ← Nat.shiftLeft_eq,
    ← Nat.shiftLeft_add_eq_or_of_lt hvalue, Nat.shiftLeft_eq, Nat.add_comm]

/-- The next byte of the decoder. -/
theorem run_uint_one (r : ByteReader) :
    (ByteReader.uint 1 ()).run r = match Source.rest r with
      | [] => .error (.refused ())
      | byte :: _ => .ok (byte.toNat, Source.skip 1 r) := by
  have hrest : (Source.rest r).length = r.data.length - r.position := List.length_drop
  cases hr : Source.rest r with
  | nil =>
    rw [hr] at hrest
    have hfew : 1 > r.data.length - r.position := by
      rw [← hrest]
      exact Nat.one_pos
    unfold ByteReader.uint
    have hfixed : (ByteReader.fixedBytes 1 ()).run r = .error (.refused ()) := dif_pos hfew
    rw [StateT.run_bind, hfixed]
    rfl
  | cons byte bytes =>
    have hone : 1 ≤ (Source.rest r).length := by simp [hr]
    have hfixed : (ByteReader.fixedBytes 1 ()).run r =
        .ok ((Source.rest r).take 1, Source.skip 1 r) := ByteReader.run_fixedBytes hone
    unfold ByteReader.uint
    rw [StateT.run_bind, hfixed, hr]
    rfl

/-- The next byte of the reader. -/
theorem u8_start (r : ByteReader) : (start r).u8 = match Source.rest r with
    | [] => (none, (start r).fail)
    | byte :: _ => (some byte, start (Source.skip 1 r)) := by
  have hrest : (Source.rest r).length = r.data.length - r.position := List.length_drop
  have hbound := r.inBounds
  cases hr : Source.rest r with
  | nil =>
    rw [hr, List.length_nil] at hrest
    have hfew : 1 > r.data.length - r.position := by omega
    unfold u8 view start
    simp [hfew]
  | cons byte bytes =>
    rw [hr, List.length_cons] at hrest
    have hmany : ¬ 1 > r.data.length - r.position := by omega
    have htake : (r.data.drop r.position).take 1 = [byte] := by
      change (Source.rest r).take 1 = _
      rw [hr]
      rfl
    have hskip : min (r.position + 1) r.data.length = r.position + 1 := by omega
    have hview : (start r).view 1 = (some [byte], start (Source.skip 1 r)) := by
      have hopen : ¬ (start r).failed = true := Bool.false_ne_true
      have hmany' : ¬ 1 > (start r).data.length - (start r).position := hmany
      unfold view
      rw [if_neg hopen, dif_neg hmany']
      change (some ((r.data.drop r.position).take 1), _) = _
      rw [htake]
      congr 1
      unfold start
      congr 1
      change (⟨_, _, _⟩ : ByteReader) = ⟨_, _, _⟩
      simp only [ByteReader.mk.injEq, true_and]
      exact hskip.symm
    unfold u8
    rw [hview]
    rfl

/-- What a decoder returns, as a read. -/
def ReadsLike (result : Except (Stop Unit) (ℕ × ByteReader)) (r : ByteReader)
    (read : Option UInt64 × LatchedReader) : Prop :=
  match result with
  | .ok (value, r') => value < 2 ^ 64 ∧ read = (some (UInt64.ofNat value), start r')
  | .error _ => read.1 = none ∧ read.2.failed = true ∧ read.2.data = r.data

/-- **The loop** goes through the rounds of the decoder's. The induction is on the rounds that are
left; the groups before stay below the next one. -/
theorem groups_readsLike (rounds i : ℕ) (hi : i + rounds = 10) {value : UInt64}
    (hvalue : value.toNat < 2 ^ (7 * i)) (r : ByteReader) :
    ReadsLike ((ByteReader.groups () rounds i value.toNat).run r) r
      (groups rounds i value (start r)) := by
  induction rounds generalizing i value r with
  | zero => exact ⟨rfl, rfl, rfl⟩
  | succ rounds ih =>
    have hlt : i < 10 := by omega
    unfold ByteReader.groups groups
    rw [StateT.run_bind, run_uint_one, u8_start]
    cases hr : Source.rest r with
    | nil => exact ⟨rfl, rfl, rfl⟩
    | cons byte bytes =>
      rw [Decoder.ok_bind]
      dsimp only
      have hlow := toNat_and_low byte
      have hlow' : (byte &&& 0x7F).toNat < 0x80 := hlow ▸ Nat.mod_lt _ (by decide)
      have hgt : byte &&& 0x7F > 1 ↔ (byte &&& 0x7F).toNat > 1 := UInt8.lt_iff_toNat_lt
      have hzero : byte &&& 0x7F = 0 ↔ (byte &&& 0x7F).toNat = 0 := UInt8.toNat_inj.symm
      rw [← hlow]
      simp only [hgt, hzero, and_high_eq_zero_iff]
      unfold ensure
      by_cases hbit : 7 * i = 63 ∧ (byte &&& 0x7F).toNat > 1
      · rw [if_neg (not_not.mpr hbit), if_pos hbit]
        exact ⟨rfl, rfl, rfl⟩
      · have hnext := toNat_or_shiftLeft hlt hvalue hlow' hbit
        rw [if_pos hbit, if_neg hbit, pure_bind]
        by_cases hend : byte.toNat < 0x80
        · rw [if_pos hend, if_pos hend]
          by_cases hlong : i > 0 ∧ (byte &&& 0x7F).toNat = 0
          · rw [if_neg (not_not.mpr hlong), if_pos hlong]
            exact ⟨rfl, rfl, rfl⟩
          · rw [if_pos hlong, if_neg hlong, pure_bind, ← hnext]
            refine ⟨UInt64.toNat_lt _, ?_⟩
            rw [UInt64.ofNat_toNat]
        · rw [if_neg hend, if_neg hend, ← hnext]
          refine ih (i + 1) (by omega) ?_ _
          rw [hnext]
          calc value.toNat + (byte &&& 0x7F).toNat * 2 ^ (7 * i)
              < 2 ^ (7 * i) + (byte &&& 0x7F).toNat * 2 ^ (7 * i) := Nat.add_lt_add_right hvalue _
            _ = ((byte &&& 0x7F).toNat + 1) * 2 ^ (7 * i) := by ring
            _ ≤ 2 ^ 7 * 2 ^ (7 * i) := Nat.mul_le_mul_right _ hlow'
            _ = 2 ^ (7 * (i + 1)) := by ring

/-- **Numbers of variable length** are those of the decoder. -/
theorem varU64_readsLike (r : ByteReader) :
    ReadsLike ((ByteReader.varU64 ()).run r) r (start r).varU64 := by
  have hzero : (0 : UInt64).toNat < 2 ^ (7 * 0) := by
    rw [UInt64.toNat_zero]
    exact Nat.one_pos
  have h := groups_readsLike 10 0 rfl hzero r
  rw [UInt64.toNat_zero] at h
  unfold ByteReader.varU64 varU64
  exact h

end Groups

end LatchedReader

/-! ## Forms -/

section Forms

theorem getLast?_varGroups {rounds value : ℕ} (h : value < 2 ^ (7 * (rounds + 1))) (hne : value ≠ 0) :
    (varGroups rounds value).getLast? ≠ some 0 := by
  have hbyte {value : ℕ} (h : value < 0x80) (hne : value ≠ 0) : UInt8.ofNat value ≠ 0 := fun hzero => by
    have htoNat := congrArg UInt8.toNat hzero
    rw [UInt8.toNat_ofNat_of_lt' (by simp only [UInt8.size]; omega), UInt8.toNat_zero] at htoNat
    exact hne htoNat
  induction rounds generalizing value with
  | zero =>
    rw [varGroups, List.getLast?_singleton]
    exact fun hzero => hbyte h hne (Option.some.inj hzero)
  | succ rounds ih =>
    rw [varGroups]
    split_ifs with hmore
    · have hfits : value / 0x80 < 2 ^ (7 * (rounds + 1)) :=
        Nat.div_lt_of_lt_mul (by rwa [show 0x80 * 2 ^ (7 * (rounds + 1)) =
          2 ^ (7 * (rounds + 1 + 1)) by ring])
      have hrest := ih hfits (by omega)
      cases hgroups : varGroups rounds (value / 0x80) with
      | nil => cases rounds <;> simp [varGroups] at hgroups; split_ifs at hgroups
      | cons b bs =>
        rw [List.getLast?_cons_cons, ← hgroups]
        exact hrest
    · rw [List.getLast?_singleton]
      exact fun hzero => hbyte (not_le.mp hmore) hne (Option.some.inj hzero)

/-- The groups of a number are its canonical form. -/
theorem isForm_varGroups {rounds value : ℕ} (h : value < 2 ^ (7 * (rounds + 1))) :
    IsForm (varGroups rounds value) value := by
  have hlast {value : ℕ} (h : value < 0x80) : IsForm [UInt8.ofNat value] value := by
    have htoNat : (UInt8.ofNat value).toNat = value :=
      UInt8.toNat_ofNat_of_lt' (by simp only [UInt8.size]; omega)
    have hform := IsForm.last (b := UInt8.ofNat value) (by rwa [htoNat])
    rwa [htoNat] at hform
  induction rounds generalizing value with
  | zero => exact hlast h
  | succ rounds ih =>
    rw [varGroups]
    split_ifs with hmore
    · have hfits : value / 0x80 < 2 ^ (7 * (rounds + 1)) :=
        Nat.div_lt_of_lt_mul (by rwa [show 0x80 * 2 ^ (7 * (rounds + 1)) =
          2 ^ (7 * (rounds + 1 + 1)) by ring])
      have hrest := ih hfits
      have htoNat : (UInt8.ofNat (value % 0x80 + 0x80)).toNat = value % 0x80 + 0x80 :=
        UInt8.toNat_ofNat_of_lt' (by simp only [UInt8.size]; omega)
      have hform := IsForm.more (b := UInt8.ofNat (value % 0x80 + 0x80)) (by omega) hrest
      rw [htoNat] at hform
      convert hform using 1
      omega
    · exact hlast (not_le.mp hmore)

/-- **The word of a number** of 64 bits is its only shortest form. -/
theorem isShortestForm_varWord_iff {bytes : List UInt8} {value : ℕ} (h : value < 2 ^ 64) :
    IsShortestForm bytes value ↔ bytes = varWord value := by
  have hlt : value < 2 ^ (7 * (9 + 1)) := h.trans (by norm_num)
  refine isShortestForm_iff (isForm_varGroups hlt) ?_
  by_cases hne : value = 0
  · subst hne
    exact Or.inl rfl
  · exact Or.inr (getLast?_varGroups hlt hne)

end Forms

namespace LatchedReader

/-- **Numbers are read exactly from their shortest form**, and a read that fails latches. -/
theorem varU64_start_iff {r : ByteReader} {value : UInt64} {r' : LatchedReader} :
    (start r).varU64 = (some value, r') ↔ ∃ bytes, bytes <+: Source.rest r ∧
      IsShortestForm bytes value.toNat ∧ r' = start (Source.skip bytes.length r) := by
  have h := varU64_readsLike r
  simp only [isShortestForm_varWord_iff (UInt64.toNat_lt value)]
  have hspells := (ByteReader.varU64_spells ()).run_iff r value.toNat
  constructor
  · intro heq
    cases hrun : (ByteReader.varU64 ()).run r with
    | error stop =>
      rw [hrun, heq] at h
      exact absurd h.1 (Option.some_ne_none _)
    | ok result =>
      obtain ⟨v, s⟩ := result
      rw [hrun, heq] at h
      obtain ⟨hlt, hread⟩ := h
      obtain ⟨hvalue, rfl⟩ := Prod.mk.inj hread
      obtain rfl : value.toNat = v := by
        rw [Option.some.inj hvalue, UInt64.toNat_ofNat_of_lt' hlt]
      obtain ⟨-, hprefix, rfl⟩ := (hspells s).mp hrun
      exact ⟨_, hprefix, rfl, rfl⟩
  · rintro ⟨_, hprefix, rfl, rfl⟩
    have hrun := (hspells _).mpr ⟨UInt64.toNat_lt value, hprefix, rfl⟩
    rw [hrun] at h
    obtain ⟨-, hread⟩ := h
    rw [hread, UInt64.ofNat_toNat]

/-- A read that fails latches. -/
theorem failed_of_varU64 {r : ByteReader} (h : (start r).varU64.1 = none) :
    (start r).varU64.2.failed = true := by
  have hread := varU64_readsLike r
  cases hrun : (ByteReader.varU64 ()).run r with
  | error stop =>
    rw [hrun] at hread
    exact hread.2.1
  | ok result =>
    rw [hrun] at hread
    rw [hread.2] at h
    cases h

/-- Whether each of some reads succeeds. -/
def performAll (r : LatchedReader) : List ReaderCall → List Bool
  | [] => []
  | call :: calls => (r.perform call).1 :: (r.perform call).2.performAll calls

theorem performAll_of_failed {r : LatchedReader} (h : r.failed = true) (calls : List ReaderCall) :
    ∀ success ∈ r.performAll calls, success = false := by
  induction calls with
  | nil => exact fun _ hmem => absurd hmem List.not_mem_nil
  | cons call calls ih =>
    unfold performAll
    rw [perform_of_failed h]
    exact List.forall_mem_cons.mpr ⟨rfl, ih⟩

end LatchedReader

/-! ## What the writer writes -/

namespace ByteWriter

variable {w : ByteWriter}

theorem putByte_eq {byte : UInt8} (h : (w.putByte byte).overflowed = false) :
    w.overflowed = false ∧ (w.putByte byte).data = w.data ++ [byte] := by
  unfold putByte at h ⊢
  split_ifs at h ⊢ with hover hfull
  · rw [hover] at h
    cases h
  · exact ⟨Bool.eq_false_iff.mpr hover, rfl⟩

/-- A writer that has not overflowed holds the groups behind what it held before. -/
theorem data_putGroups {rounds value : ℕ} (h : (w.putGroups value rounds).overflowed = false) :
    w.overflowed = false ∧ (w.putGroups value rounds).data = w.data ++ varGroups rounds value := by
  induction rounds generalizing value w with
  | zero => exact putByte_eq h
  | succ rounds ih =>
    rw [putGroups] at h ⊢
    rw [varGroups]
    split_ifs at h ⊢ with hmore
    · obtain ⟨hrest, hdata⟩ := ih h
      obtain ⟨hopen, hbyte⟩ := putByte_eq hrest
      exact ⟨hopen, by rw [hdata, hbyte, List.append_assoc, List.singleton_append]⟩
    · exact putByte_eq h

end ByteWriter

namespace LatchedReader

/-- **Numbers of variable length**: what a writer writes is read back and nothing more; a read
succeeds exactly on the shortest form of a number of 64 bits; a read that fails latches; and a
latched reader fails every later read. -/
theorem varU64_leb128 :
    (∀ (w : ByteWriter) (value : UInt64) (after : List UInt8) (r : ByteReader),
      (w.varU64 value.toNat).overflowed = false →
      r.data = (w.varU64 value.toNat).data ++ after → r.position = w.data.length →
      ∃ r' : ByteReader, (start r).varU64 = (some value, start r') ∧ r'.data = r.data ∧
        r'.position = (w.varU64 value.toNat).data.length) ∧
    (∀ (r : ByteReader) (value : UInt64) (r' : LatchedReader),
      (start r).varU64 = (some value, r') ↔ ∃ bytes, bytes <+: Source.rest r ∧
        IsShortestForm bytes value.toNat ∧ r' = start (Source.skip bytes.length r)) ∧
    (∀ r : ByteReader, (start r).varU64.1 = none → (start r).varU64.2.failed = true) ∧
    (∀ r : LatchedReader, r.failed = true → ∀ calls, ∀ success ∈ r.performAll calls,
      success = false) := by
  refine ⟨fun w value after r hover hdata hposition => ?_, fun r value r' => varU64_start_iff,
    fun r => failed_of_varU64, fun r => performAll_of_failed⟩
  obtain ⟨-, hword⟩ := ByteWriter.data_putGroups hover
  change (w.varU64 value.toNat).data = w.data ++ varWord value.toNat at hword
  rw [hword, List.append_assoc] at hdata
  have hrest : Source.rest r = varWord value.toNat ++ after := by
    change r.data.drop r.position = _
    rw [hdata, hposition, List.drop_left]
  refine ⟨Source.skip (varWord value.toNat).length r, varU64_start_iff.mpr
    ⟨varWord value.toNat, hrest ▸ List.prefix_append _ _, ?_, rfl⟩, rfl, ?_⟩
  · exact (isShortestForm_varWord_iff (UInt64.toNat_lt value)).mpr rfl
  · change min (r.position + (varWord value.toNat).length) r.data.length = _
    rw [hword, hdata, hposition, List.length_append, List.length_append, List.length_append]
    omega

/-- Ten bytes are enough, and the tenth one holds a single bit. -/
example : (start (.new (List.replicate 9 0xFF ++ [1]))).varU64.1 = some (UInt64.ofNat (2 ^ 64 - 1)) ∧
    (start (.new (List.replicate 9 0xFF ++ [2]))).varU64.1 = none := by
  decide +kernel

end LatchedReader

end PathPlanner
