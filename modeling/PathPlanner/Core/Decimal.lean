import PathPlanner.Core.Identity
import PathPlanner.Library.Numeral

/-!
# Decimal texts of quantities

A quantity is written as its decimal digits, most significant first, and a text is read as a
quantity digit by digit. Before each digit the reader tests that the value stays within the bound of
the type; the division in the test rounds down, so that the test is exact up to the last digit, and
no value wraps. What is read is the canonical numeral of a quantity in range.

## Main definitions

* `StrongUInt.parseDigit`, `StrongUInt.parse`: the reader
* `StrongUInt.pushDigits`, `reverseInPlace`, `StrongUInt.toText`: the writer
* `IsDecimal`, `decimalValue`: canonical decimal texts and their values
* `IsQuantity`: the types of quantities of the program

## Main results

* `StrongUInt.parseDigits_eq_some_iff`: what the loop reads
* `StrongUInt.parse_exact`: **the reader accepts** exactly the canonical texts of quantities in
  range, without a wrap, and reads back what the writer writes
-/

namespace PathPlanner

/-! ## The reader and the writer -/

namespace StrongUInt

variable {Tag : Type} {width bound : ℕ}

/-- One more digit: the body of the loop of `Parse`, in arithmetic that wraps at the width. -/
def parseDigit (width bound value : ℕ) (c : UInt8) : Option ℕ :=
  if c < 48 ∨ c > 57 then none
  else
    let digit := (c - 48).toNat
    -- the guard is itself computed in the representation
    if value > (bound + 2 ^ width - digit) % 2 ^ width / 10 then none
    else some ((value * 10 + digit) % 2 ^ width)

/-- `StrongUInt::Parse`. -/
def parse (text : List UInt8) : Option (StrongUInt Tag width bound) :=
  if text.isEmpty ∨ text.length > 20 then none
  else if text.length > 1 ∧ text.getD 0 0 = 48 then none
  else (text.foldlM (parseDigit width bound) 0).map ofNat

/-- The loop of `ToString`: the digits from the least significant one. -/
def pushDigits (remaining : ℕ) (out : List UInt8) : List UInt8 :=
  if 0 < remaining then
    pushDigits (remaining / 10) (out ++ [.ofNat (48 + remaining % 10)])
  else out
termination_by remaining
decreasing_by exact Nat.div_lt_self ‹_› (by decide)

/-- The exchange of a byte with the one at the same distance from the end. -/
def swapEnds (out : List UInt8) (i : ℕ) : List UInt8 :=
  let tmp := out.getD i 0
  (out.set i (out.getD (out.length - 1 - i) 0)).set (out.length - 1 - i) tmp

/-- The loop of `ToString` that turns the digits around. -/
def reverseInPlace (out : List UInt8) : List UInt8 :=
  (List.range (out.length / 2)).foldl swapEnds out

/-- `StrongUInt::ToString`, as bytes. -/
def toText (v : StrongUInt Tag width bound) : List UInt8 :=
  if v.value = 0 then [48] else reverseInPlace (pushDigits v.value [])

end StrongUInt

/-! ## Decimal texts -/

/-- A canonical decimal text: digits only, and no leading zero unless it is the only digit. -/
structure IsDecimal (text : List UInt8) : Prop where
  ne_nil : text ≠ []
  digits : ∀ c ∈ text, 48 ≤ c ∧ c ≤ 57
  no_leading_zero : 1 < text.length → text.head? ≠ some 48

/-- The value of a digit. -/
def digitValue (c : UInt8) : ℕ := c.toNat - 48

/-- The value of a decimal text. -/
def decimalValue (text : List UInt8) : ℕ := Numeral.value 10 (text.map digitValue)

/-- The byte of a digit. -/
def digitByte (d : ℕ) : UInt8 := .ofNat (48 + d)

section Texts

variable {text : List UInt8} {c : UInt8} {d n : ℕ}

theorem digitValue_lt (h : 48 ≤ c ∧ c ≤ 57) : digitValue c < 10 := by
  rw [UInt8.le_iff_toNat_le, UInt8.le_iff_toNat_le] at h
  have hupper : c.toNat ≤ 57 := h.2
  unfold digitValue
  omega

theorem digitByte_digitValue (h : 48 ≤ c ∧ c ≤ 57) : digitByte (digitValue c) = c := by
  rw [UInt8.le_iff_toNat_le, UInt8.le_iff_toNat_le] at h
  have hlower : 48 ≤ c.toNat := h.1
  rw [digitByte, digitValue, Nat.add_sub_cancel' hlower, UInt8.ofNat_toNat]

theorem toNat_digitByte (h : d < 10) : (digitByte d).toNat = 48 + d := by
  rw [digitByte, UInt8.toNat_ofNat']
  omega

theorem digitValue_digitByte (h : d < 10) : digitValue (digitByte d) = d := by
  rw [digitValue, toNat_digitByte h, Nat.add_sub_cancel_left]

theorem isDigit_digitByte (h : d < 10) : 48 ≤ digitByte d ∧ digitByte d ≤ 57 := by
  rw [UInt8.le_iff_toNat_le, UInt8.le_iff_toNat_le, toNat_digitByte h]
  change 48 ≤ 48 + d ∧ 48 + d ≤ 57
  omega

/-- A digit is a zero exactly when its byte is. -/
theorem digitValue_eq_zero_iff (h : 48 ≤ c ∧ c ≤ 57) : digitValue c = 0 ↔ c = 48 := by
  constructor
  · intro hzero
    rw [← digitByte_digitValue h, hzero]
    rfl
  · rintro rfl
    rfl

/-- **A canonical decimal text** is a canonical numeral. -/
theorem IsDecimal.isCanonical (h : IsDecimal text) :
    Numeral.IsCanonical 10 (text.map digitValue) where
  ne_nil hnil := h.ne_nil (List.map_eq_nil_iff.mp hnil)
  lt_base := List.forall_mem_map.mpr fun c hc => digitValue_lt (h.digits c hc)
  head_ne_zero hlong hzero := by
    rw [List.length_map] at hlong
    rw [List.head?_map, Option.map_eq_some_iff] at hzero
    obtain ⟨c, hc, hzero⟩ := hzero
    rw [digitValue_eq_zero_iff (h.digits c (List.mem_of_head? hc))] at hzero
    exact h.no_leading_zero hlong (hzero ▸ hc)

/-- The decimal text of a number. -/
def decimalText (n : ℕ) : List UInt8 := (Numeral.digits 10 n).map digitByte

theorem map_digitValue_decimalText : (decimalText n).map digitValue = Numeral.digits 10 n := by
  have hdigits := (Numeral.isCanonical_digits (b := 10) (n := n) (by decide)).lt_base
  rw [decimalText, List.map_map]
  refine (List.map_congr_left fun d hd => ?_).trans (List.map_id _)
  exact digitValue_digitByte (hdigits d hd)

theorem decimalValue_decimalText : decimalValue (decimalText n) = n := by
  rw [decimalValue, map_digitValue_decimalText, Numeral.value_digits]

theorem isDecimal_decimalText : IsDecimal (decimalText n) := by
  have hcanonical := Numeral.isCanonical_digits (b := 10) (n := n) (by decide)
  have hdigits : ∀ c ∈ decimalText n, 48 ≤ c ∧ c ≤ 57 :=
    List.forall_mem_map.mpr fun d hd => isDigit_digitByte (hcanonical.lt_base d hd)
  refine ⟨fun hnil => hcanonical.ne_nil (List.map_eq_nil_iff.mp hnil), hdigits, ?_⟩
  intro hlong hzero
  refine hcanonical.head_ne_zero ?_ ?_
  · rwa [decimalText, List.length_map] at hlong
  · rw [← map_digitValue_decimalText, List.head?_map, hzero]
    rfl

/-- **A canonical decimal text** is that of its value. -/
theorem IsDecimal.eq_decimalText (h : IsDecimal text) : text = decimalText (decimalValue text) := by
  rw [decimalText, decimalValue, ← h.isCanonical.eq_digits (by decide), List.map_map]
  refine ((List.map_congr_left fun c hc => ?_).trans (List.map_id _)).symm
  exact digitByte_digitValue (h.digits c hc)

end Texts

/-! ## What is read -/

/-- The types of quantities of the program, by their width and their maximum. -/
inductive IsQuantity : ℕ → ℕ → Prop
  | costOrGeneration : IsQuantity 64 (2 ^ 64 - 1)
  | staticCost : IsQuantity 32 (2 ^ 32 - 1)
  | hopCount : IsQuantity 32 maxHopCount
  | candidateRank : IsQuantity 32 maxCandidateRank

/-- A maximum that the guard of the reader can subtract any digit from, that is representable, and
that has at most twenty digits. -/
structure IsReadable (width bound : ℕ) : Prop where
  nine_le : 9 ≤ bound
  lt_width : bound < 2 ^ width
  lt_length : bound < 10 ^ 20

theorem IsQuantity.isReadable {width bound : ℕ} (h : IsQuantity width bound) :
    IsReadable width bound := by
  cases h with
  | costOrGeneration => exact ⟨by decide, by decide, by decide⟩
  | staticCost => exact ⟨by decide, by decide, by decide⟩
  | hopCount => exact ⟨by decide, by decide, by decide⟩
  | candidateRank => exact ⟨by decide, by decide, by decide⟩

namespace StrongUInt

section Reader

variable {width bound value n : ℕ} {text : List UInt8} {c : UInt8}

theorem not_digit_iff : c < 48 ∨ c > 57 ↔ ¬ (48 ≤ c ∧ c ≤ 57) := by
  rw [not_and_or, UInt8.not_le, UInt8.not_le]

/-- **One more digit** is read without a wrap, as long as the value stays within the bound. -/
theorem parseDigit_eq_some_iff (h : IsReadable width bound) :
    parseDigit width bound value c = some n ↔
      (48 ≤ c ∧ c ≤ 57) ∧ value * 10 + digitValue c = n ∧ n ≤ bound := by
  unfold parseDigit
  by_cases hdigit : 48 ≤ c ∧ c ≤ 57
  swap
  · rw [if_pos (not_digit_iff.mpr hdigit)]
    exact iff_of_false nofun fun hread => hdigit hread.1
  rw [if_neg fun hnot => not_digit_iff.mp hnot hdigit]
  have hvalue : (c - 48).toNat = digitValue c := UInt8.toNat_sub_of_le c 48 hdigit.1
  have hnine : digitValue c ≤ bound :=
    (Nat.le_of_lt_succ (digitValue_lt hdigit)).trans h.nine_le
  -- the guard does not wrap, since the bound is nine at least
  have hwrap : (bound + 2 ^ width - digitValue c) % 2 ^ width = bound - digitValue c := by
    rw [Nat.sub_add_comm hnine, Nat.add_mod_right]
    exact Nat.mod_eq_of_lt ((Nat.sub_le _ _).trans_lt h.lt_width)
  rw [hvalue]
  dsimp only
  rw [hwrap]
  split_ifs with hguard
  · rw [gt_iff_lt, ← not_le, Numeral.le_sub_div_iff (by decide) hnine] at hguard
    refine iff_of_false nofun ?_
    rintro ⟨-, rfl, hle⟩
    exact hguard hle
  · rw [not_lt, Numeral.le_sub_div_iff (by decide) hnine] at hguard
    rw [Nat.mod_eq_of_lt (hguard.trans_lt h.lt_width), Option.some.injEq]
    exact ⟨fun hn => ⟨hdigit, hn, hn ▸ hguard⟩, fun hread => hread.2.1⟩

/-- **The loop** reads digits only, to their value, as long as it stays within the bound. -/
theorem parseDigits_eq_some_iff (h : IsReadable width bound) (hvalue : value ≤ bound) :
    text.foldlM (parseDigit width bound) value = some n ↔
      (∀ c ∈ text, 48 ≤ c ∧ c ≤ 57) ∧ Numeral.extend 10 value (text.map digitValue) = n ∧
        n ≤ bound := by
  induction text generalizing value with
  | nil =>
    rw [List.foldlM_nil, Option.pure_def, Option.some.injEq]
    exact ⟨fun hn => ⟨nofun, hn, hn ▸ hvalue⟩, fun hread => hread.2.1⟩
  | cons c text ih =>
    rw [List.foldlM_cons, Option.bind_eq_bind, Option.bind_eq_some_iff, List.forall_mem_cons,
      List.map_cons, Numeral.extend_cons]
    constructor
    · rintro ⟨m, hdigit, hrest⟩
      obtain ⟨hc, rfl, hm⟩ := (parseDigit_eq_some_iff h).mp hdigit
      obtain ⟨htext, hn, hle⟩ := (ih hm).mp hrest
      exact ⟨⟨hc, htext⟩, hn, hle⟩
    · rintro ⟨⟨hc, htext⟩, hn, hle⟩
      -- the value read so far is no more than the whole
      have hm : value * 10 + digitValue c ≤ bound :=
        (Numeral.le_extend (by decide)).trans (hn.trans_le hle)
      exact ⟨_, (parseDigit_eq_some_iff h).mpr ⟨hc, rfl, hm⟩, (ih hm).mpr ⟨htext, hn, hle⟩⟩

/-- A canonical text of a quantity in range is not too long for the reader. -/
theorem length_le_of_isDecimal (h : IsReadable width bound) (htext : IsDecimal text)
    (hle : decimalValue text ≤ bound) : text.length ≤ 20 := by
  have hlength := congrArg List.length htext.eq_decimalText
  rw [decimalText, List.length_map] at hlength
  rw [hlength]
  exact Numeral.length_digits_le (by decide) (by decide) (hle.trans_lt h.lt_length)

variable {Tag : Type}

/-- **The reader** accepts the canonical texts of quantities in range. -/
theorem parse_eq_some_iff (h : IsReadable width bound) {v : StrongUInt Tag width bound} :
    parse text = some v ↔ IsDecimal text ∧ decimalValue text = v.value ∧ v.value ≤ bound := by
  have hloop (n : ℕ) : text.foldlM (parseDigit width bound) 0 = some n ↔
      (∀ c ∈ text, 48 ≤ c ∧ c ≤ 57) ∧ decimalValue text = n ∧ n ≤ bound :=
    parseDigits_eq_some_iff h (Nat.zero_le bound)
  have hread : (text.foldlM (parseDigit width bound) 0).map ofNat = some v ↔
      (∀ c ∈ text, 48 ≤ c ∧ c ≤ 57) ∧ decimalValue text = v.value ∧ v.value ≤ bound := by
    rw [Option.map_eq_some_iff, ← hloop]
    constructor
    · rintro ⟨n, hn, rfl⟩
      rwa [value_ofNat, Nat.mod_eq_of_lt (((hloop n).mp hn).2.2.trans_lt h.lt_width)]
    · intro hv
      refine ⟨v.value, hv, ext_iff.mpr ?_⟩
      rw [value_ofNat, Nat.mod_eq_of_lt v.lt]
  have hhead : text.head? = some 48 ↔ text ≠ [] ∧ text.getD 0 0 = 48 := by
    cases text with
    | nil => simp
    | cons c text => simp
  unfold parse
  split_ifs with hlength hzero
  · refine iff_of_false nofun fun ⟨hdecimal, hvalue, hle⟩ => ?_
    rcases hlength with hempty | hlong
    · exact hdecimal.ne_nil (List.isEmpty_iff.mp hempty)
    · exact absurd (length_le_of_isDecimal h hdecimal (hvalue.trans_le hle)) (not_le.mpr hlong)
  · refine iff_of_false nofun fun ⟨hdecimal, _⟩ => ?_
    exact hdecimal.no_leading_zero hzero.1 (hhead.mpr ⟨hdecimal.ne_nil, hzero.2⟩)
  · rw [hread]
    refine and_congr_left fun _ => ⟨fun hdigits => ?_, IsDecimal.digits⟩
    rw [not_or, List.isEmpty_iff] at hlength
    exact ⟨hlength.1, hdigits, fun hlong hfirst => hzero ⟨hlong, (hhead.mp hfirst).2⟩⟩

end Reader

/-! ## What is written -/

section Writer

variable {out : List UInt8} {i k n : ℕ}

/-- **The loop of the digits** appends them from the least significant one. -/
theorem pushDigits_eq : pushDigits n out = out ++ (Nat.digits 10 n).map digitByte := by
  induction n using Nat.strongRecOn generalizing out with
  | ind n ih =>
    unfold pushDigits
    split_ifs with hn
    · rw [ih (n / 10) (Nat.div_lt_self hn (by decide)), Nat.digits_def' (by decide) hn,
        List.map_cons, List.append_assoc]
      rfl
    · rw [Nat.eq_zero_of_not_pos hn, Nat.digits_zero, List.map_nil, List.append_nil]

/-- What is at a position once the outer pairs of bytes are exchanged. -/
theorem getElem?_foldl_swapEnds (hk : k ≤ out.length / 2) :
    ((List.range k).foldl swapEnds out).length = out.length ∧
      ∀ j < out.length, ((List.range k).foldl swapEnds out)[j]? =
        if j < k ∨ out.length - k ≤ j then out[out.length - 1 - j]? else out[j]? := by
  induction k with
  | zero =>
    refine ⟨rfl, fun j hj => ?_⟩
    rw [if_neg (by omega)]
    rfl
  | succ k ih =>
    obtain ⟨hlength, hget⟩ := ih (by omega)
    rw [List.range_succ, List.foldl_append, List.foldl_cons, List.foldl_nil]
    generalize (List.range k).foldl swapEnds out = before at hlength hget
    have hbyte (j : ℕ) (hj : j < out.length) : some (before.getD j 0) = before[j]? := by
      rw [List.getD_eq_getElem?_getD, List.getElem?_eq_getElem (hlength ▸ hj)]
      rfl
    refine ⟨by rw [swapEnds, List.length_set, List.length_set, hlength], fun j hj => ?_⟩
    -- the pair that is exchanged is none of those before
    have hfirst : before[k]? = out[k]? := by
      rw [hget k (by omega), if_neg (by omega)]
    have hlast : before[out.length - 1 - k]? = out[out.length - 1 - k]? := by
      rw [hget _ (by omega), if_neg (by omega)]
    rw [swapEnds, hlength, List.getElem?_set, List.getElem?_set, List.length_set, hlength,
      hbyte k (by omega), hbyte _ (by omega), hfirst, hlast]
    by_cases hend : out.length - 1 - k = j
    · have hmirror : out.length - 1 - j = k := by omega
      rw [if_pos hend, if_pos (by omega), if_pos (Or.inr (by omega)), hmirror]
    · rw [if_neg hend]
      by_cases hstart : k = j
      · rw [if_pos hstart, if_pos (by omega), if_pos (Or.inl (by omega)), hstart]
      · have hothers : j < k + 1 ∨ out.length - (k + 1) ≤ j ↔ j < k ∨ out.length - k ≤ j := by
          omega
        rw [if_neg hstart, hget j hj, if_congr hothers rfl rfl]

/-- **The second loop** turns the bytes around. -/
theorem reverseInPlace_eq : reverseInPlace out = out.reverse := by
  obtain ⟨hlength, hget⟩ := @getElem?_foldl_swapEnds out (out.length / 2) le_rfl
  refine List.ext_getElem? fun j => ?_
  by_cases hj : j < out.length
  · rw [List.getElem?_reverse hj, reverseInPlace, hget j hj]
    split_ifs with hswapped
    · rfl
    · -- the byte in the middle stays
      congr 1
      omega
  · rw [List.getElem?_eq_none (not_lt.mp (hlength.symm ▸ hj)),
      List.getElem?_eq_none (by rw [List.length_reverse]; exact not_lt.mp hj)]

variable {Tag : Type} {width bound : ℕ}

/-- **What is written** is the canonical decimal text of the value. -/
theorem toText_eq (v : StrongUInt Tag width bound) : v.toText = decimalText v.value := by
  rw [toText, decimalText, Numeral.digits]
  split_ifs
  · rfl
  · rw [reverseInPlace_eq, pushDigits_eq, List.nil_append, List.map_reverse]

end Writer

/-- **Decimal texts**: for every type of quantities the reader accepts exactly the canonical decimal
texts of values up to the maximum, as these values; whatever it has read of a text it holds exactly,
within the maximum; and it reads back what the writer writes for a value in range. -/
theorem parse_exact (Tag : Type) {width bound : ℕ} (h : IsQuantity width bound) :
    (∀ text : List UInt8, (∃ v : StrongUInt Tag width bound, parse text = some v) ↔
      IsDecimal text ∧ decimalValue text ≤ bound) ∧
    (∀ (text : List UInt8) (v : StrongUInt Tag width bound), parse text = some v →
      v.value = decimalValue text) ∧
    (∀ (text before : List UInt8) (n : ℕ), before <+: text →
      before.foldlM (parseDigit width bound) 0 = some n →
        n = decimalValue before ∧ n ≤ bound) ∧
    ∀ v : StrongUInt Tag width bound, v.value ≤ bound → parse v.toText = some v := by
  have hreadable := h.isReadable
  refine ⟨fun text => ⟨?_, ?_⟩, ?_, ?_, ?_⟩
  · rintro ⟨v, hv⟩
    obtain ⟨hdecimal, hvalue, hle⟩ := (parse_eq_some_iff hreadable).mp hv
    exact ⟨hdecimal, hvalue.trans_le hle⟩
  · rintro ⟨hdecimal, hle⟩
    have hvalue : (ofNat (decimalValue text) : StrongUInt Tag width bound).value =
        decimalValue text := Nat.mod_eq_of_lt (hle.trans_lt hreadable.lt_width)
    exact ⟨_, (parse_eq_some_iff hreadable).mpr ⟨hdecimal, hvalue.symm, hvalue.trans_le hle⟩⟩
  · intro text v hv
    exact ((parse_eq_some_iff hreadable).mp hv).2.1.symm
  · intro text before n _ hn
    obtain ⟨-, hvalue, hle⟩ := (parseDigits_eq_some_iff hreadable (Nat.zero_le bound)).mp hn
    exact ⟨hvalue.symm, hle⟩
  · intro v hv
    rw [toText_eq]
    exact (parse_eq_some_iff hreadable).mpr
      ⟨isDecimal_decimalText, decimalValue_decimalText, hv⟩

/-- The largest hop count is read, and the next number is not. -/
theorem parse_exact_hopCount :
    (∃ v : HopCount, parse "65535".toUTF8.data.toList = some v) ∧
      ¬ ∃ v : HopCount, parse "65536".toUTF8.data.toList = some v := by
  obtain ⟨haccepts, -⟩ := parse_exact HopCountTag IsQuantity.hopCount
  refine ⟨(haccepts _).mpr ⟨⟨by decide, by decide +kernel, by decide⟩, by decide⟩, fun hread => ?_⟩
  exact absurd ((haccepts _).mp hread).2 (by decide)

end StrongUInt

end PathPlanner
