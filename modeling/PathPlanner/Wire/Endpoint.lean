import PathPlanner.Core.Decimal

/-!
# Endpoint texts

A coordinator listens on an address and a port and reports them as one text, `host:port`. Workers and
clients split such a text at its last colon, since an address may have colons of its own, and read the
port as a decimal number, which may have leading zeros.

## Main definitions

* `validateHostString`: the addresses that are accepted
* `parseEndpoint`, `formatEndpoint`: the reader and the writer
* `IsPortText`: the texts of ports

## Main results

* `parsePort_eq_some_iff`: what the loop over the digits reads
* `parseEndpoint_eq_some_iff`: what the reader accepts
* `parseEndpoint_exact`: **the reader accepts** exactly the texts of usable addresses and ports, and
  reads back what the writer writes for them, and for nothing else
-/

namespace PathPlanner

/-! ## The reader and the writer -/

/-- The bytes that a host may have. -/
def isHostByte (c : UInt8) : Bool :=
  if c ≤ 0x20 ∨ c = 0x7F then false
  else
    decide (97 ≤ c ∧ c ≤ 122) || decide (65 ≤ c ∧ c ≤ 90) || decide (48 ≤ c ∧ c ≤ 57) ||
      c == 46 || c == 45 || c == 58 || c == 95

/-- `ValidateHostString`. -/
def validateHostString (host : List UInt8) : Bool :=
  if host.isEmpty ∨ host.length > 253 then false else host.all isHostByte

/-- The place of the last colon, as `rfind` finds it. -/
def lastColon (text : List UInt8) : Option ℕ :=
  (text.reverse.findIdx? (· == 58)).map fun i => text.length - 1 - i

/-- One more digit of a port: the body of the loop, in 32 bits. -/
def parsePortDigit (value : ℕ) (c : UInt8) : Option ℕ :=
  if c < 48 ∨ c > 57 then none else some ((value * 10 + (c - 48).toNat) % 2 ^ 32)

/-- `ParseEndpoint`: the host and the port. -/
def parseEndpoint (endpoint : List UInt8) : Option (List UInt8 × UInt16) :=
  match lastColon endpoint with
  | none => none
  | some separator =>
    if separator = 0 ∨ separator + 1 ≥ endpoint.length then none
    else
      let host := endpoint.take separator
      let portText := endpoint.drop (separator + 1)
      if validateHostString host = false then none
      else if portText.isEmpty ∨ portText.length > 5 then none
      else
        match portText.foldlM parsePortDigit 0 with
        | none => none
        | some value =>
          if value = 0 ∨ value > 65535 then none else some (host, UInt16.ofNat value)

/-- `FormatEndpoint`. -/
def formatEndpoint (host : List UInt8) (port : UInt16) : List UInt8 :=
  host ++ [58] ++ decimalText port.toNat

/-! ## The last colon -/

section Colon

variable {host text : List UInt8}

/-- The last colon is the one before a text without colons. -/
theorem lastColon_append (h : 58 ∉ text) : lastColon (host ++ 58 :: text) = some host.length := by
  have hfind : (host ++ 58 :: text).reverse.findIdx? (· == 58) = some text.length := by
    rw [List.reverse_append, List.reverse_cons, List.append_assoc, List.findIdx?_append]
    have hnone : text.reverse.findIdx? (· == 58) = none := by
      rw [List.findIdx?_eq_none_iff]
      intro c hc
      rw [beq_eq_false_iff_ne]
      rintro rfl
      exact h (List.mem_reverse.mp hc)
    rw [hnone]
    simp [List.findIdx?_cons]
  unfold lastColon
  rw [hfind, Option.map_some, List.length_append, List.length_cons]
  congr 1
  omega

/-- A text with a colon is split by the last one. -/
theorem eq_append_of_lastColon {endpoint : List UInt8} {separator : ℕ}
    (h : lastColon endpoint = some separator) :
    endpoint = endpoint.take separator ++ 58 :: endpoint.drop (separator + 1) ∧
      58 ∉ endpoint.drop (separator + 1) := by
  unfold lastColon at h
  obtain ⟨i, hi, rfl⟩ := Option.map_eq_some_iff.mp h
  obtain ⟨hlt, hcolon, hbefore⟩ := List.findIdx?_eq_some_iff_getElem.mp hi
  rw [List.length_reverse] at hlt
  rw [List.getElem_reverse, beq_iff_eq] at hcolon
  have hplace : endpoint.length - 1 - i < endpoint.length := by omega
  refine ⟨?_, fun hmem => ?_⟩
  · conv_lhs => rw [← List.take_append_drop (endpoint.length - 1 - i) endpoint]
    rw [List.drop_eq_getElem_cons hplace, hcolon]
  · -- a colon behind it would have been found before
    obtain ⟨j, hj, hcolon'⟩ := List.mem_iff_getElem.mp hmem
    rw [List.length_drop] at hj
    rw [List.getElem_drop] at hcolon'
    have hearlier := hbefore (endpoint.length - 1 - (endpoint.length - 1 - i + 1 + j)) (by omega)
    rw [List.getElem_reverse] at hearlier
    apply hearlier
    rw [beq_iff_eq, ← hcolon']
    congr 1
    omega

end Colon

/-! ## Ports -/

/-- A decimal text of a port: at most five digits, of a number from 1 to 65535. -/
structure IsPortText (text : List UInt8) : Prop where
  ne_nil : text ≠ []
  length_le : text.length ≤ 5
  digits : ∀ c ∈ text, 48 ≤ c ∧ c ≤ 57
  pos : 0 < decimalValue text
  le : decimalValue text ≤ 65535

section Port

variable {text host endpoint : List UInt8} {port : UInt16} {value n : ℕ}

/-- **What the loop reads**: digits, with their value as long as it has room. -/
theorem parsePort_eq_some_iff (hroom : (value + 1) * 10 ^ text.length ≤ 2 ^ 32) :
    text.foldlM parsePortDigit value = some n ↔
      (∀ c ∈ text, 48 ≤ c ∧ c ≤ 57) ∧ Numeral.extend 10 value (text.map digitValue) = n := by
  induction text generalizing value with
  | nil => simp
  | cons c text ih =>
    rw [List.foldlM_cons, List.forall_mem_cons, List.map_cons, Numeral.extend_cons]
    unfold parsePortDigit
    by_cases hdigit : 48 ≤ c ∧ c ≤ 57
    · have hvalue : (c - 48).toNat = digitValue c := UInt8.toNat_sub_of_le c 48 hdigit.1
      have hlt := digitValue_lt hdigit
      have hpow : 0 < 10 ^ text.length := Nat.pow_pos (by decide)
      have hnext : (value * 10 + digitValue c + 1) * 10 ^ text.length ≤ 2 ^ 32 := by
        calc (value * 10 + digitValue c + 1) * 10 ^ text.length
            ≤ ((value + 1) * 10) * 10 ^ text.length := by
              apply Nat.mul_le_mul_right
              omega
          _ = (value + 1) * 10 ^ (c :: text).length := by rw [List.length_cons]; ring
          _ ≤ 2 ^ 32 := hroom
      -- the value does not wrap
      have hsmall : value * 10 + digitValue c < 2 ^ 32 := by
        have hle := (Nat.le_mul_of_pos_right (value * 10 + digitValue c + 1) hpow).trans hnext
        omega
      rw [if_neg (StrongUInt.not_digit_iff.not.mpr (not_not.mpr hdigit)), hvalue, Nat.mod_eq_of_lt hsmall,
        and_iff_right hdigit]
      exact ih hnext
    · rw [if_pos (StrongUInt.not_digit_iff.mpr hdigit)]
      simp [hdigit]

/-- Digits are not colons. -/
theorem colon_notMem (h : ∀ c ∈ text, 48 ≤ c ∧ c ≤ 57) : 58 ∉ text := by
  intro hcolon
  exact absurd (h 58 hcolon).2 (by decide)

/-- **What the reader accepts**: an address that may be used, a colon, and the text of a port. -/
theorem parseEndpoint_eq_some_iff : parseEndpoint endpoint = some (host, port) ↔
    validateHostString host = true ∧ ∃ text, endpoint = host ++ 58 :: text ∧ IsPortText text ∧
      decimalValue text = port.toNat := by
  constructor
  · intro h
    unfold parseEndpoint at h
    cases hcolon : lastColon endpoint with
    | none =>
      rw [hcolon] at h
      cases h
    | some separator =>
      rw [hcolon] at h
      dsimp only at h
      split_ifs at h with hplace hhost hport
      cases hread : (endpoint.drop (separator + 1)).foldlM parsePortDigit 0 with
      | none =>
        rw [hread] at h
        cases h
      | some value =>
        rw [hread] at h
        obtain ⟨hrange, hsome⟩ := Option.ite_none_left_eq_some.mp h
        obtain ⟨rfl, rfl⟩ := Prod.mk.inj (Option.some.inj hsome)
        obtain ⟨hnil, hlong⟩ := not_or.mp hport
        have hlength : (endpoint.drop (separator + 1)).length ≤ 5 := Nat.le_of_not_lt hlong
        have hroom : (0 + 1) * 10 ^ (endpoint.drop (separator + 1)).length ≤ 2 ^ 32 := by
          have hpow := Nat.pow_le_pow_right (show 0 < 10 by decide) hlength
          omega
        obtain ⟨hdigits, hvalue⟩ := (parsePort_eq_some_iff hroom).mp hread
        change decimalValue _ = value at hvalue
        have hport16 : (UInt16.ofNat value).toNat = value := by
          rw [UInt16.toNat_ofNat']
          omega
        refine ⟨Bool.eq_true_of_not_eq_false hhost, _, (eq_append_of_lastColon hcolon).1,
          ⟨?_, hlength, hdigits, ?_, ?_⟩, ?_⟩
        · intro hempty
          exact hnil (List.isEmpty_iff.mpr hempty)
        · omega
        · omega
        · rw [hvalue, hport16]
  · rintro ⟨hhost, text, rfl, htext, hvalue⟩
    have hhostLength : host.length ≠ 0 := by
      intro hzero
      rw [List.length_eq_zero_iff.mp hzero] at hhost
      cases hhost
    have htextLength : text.length ≠ 0 := fun hzero =>
      htext.ne_nil (List.length_eq_zero_iff.mp hzero)
    have hroom : (0 + 1) * 10 ^ text.length ≤ 2 ^ 32 := by
      have hpow := Nat.pow_le_pow_right (show 0 < 10 by decide) htext.length_le
      omega
    have hread := (parsePort_eq_some_iff hroom).mpr ⟨htext.digits, hvalue⟩
    have hpos := htext.pos
    have hle := htext.le
    have hdrop : (host ++ 58 :: text).drop (host.length + 1) = text := by
      rw [← List.drop_drop, List.drop_left, List.drop_succ_cons, List.drop_zero]
    have hempty : ¬ (text.isEmpty = true ∨ text.length > 5) := by
      rw [List.isEmpty_iff, not_or]
      exact ⟨htext.ne_nil, Nat.not_lt_of_le htext.length_le⟩
    unfold parseEndpoint
    rw [lastColon_append (colon_notMem htext.digits)]
    dsimp only
    rw [if_neg (by rw [List.length_append, List.length_cons]; omega), List.take_left, hdrop, hhost,
      if_neg (by decide), if_neg hempty, hread]
    dsimp only
    rw [if_neg (by omega), UInt16.ofNat_toNat]

/-- The decimal text of a port. -/
theorem isPortText_decimalText (h : port ≠ 0) : IsPortText (decimalText port.toNat) := by
  have hlt := port.toNat_lt
  have hdecimal : IsDecimal (decimalText port.toNat) := isDecimal_decimalText
  refine ⟨hdecimal.ne_nil, ?_, hdecimal.digits, ?_, ?_⟩
  · unfold decimalText
    rw [List.length_map]
    apply Numeral.length_digits_le (by decide) (by decide)
    omega
  · rw [decimalValue_decimalText]
    apply Nat.pos_of_ne_zero
    intro hzero
    exact h (UInt16.toNat_inj.mp hzero)
  · rw [decimalValue_decimalText]
    omega

/-- **Endpoint texts**: the reader accepts exactly an address that may be used, a colon and the text of
a port, and splits the text there; it reads what the writer writes back exactly when the address may
be used and the port is not zero; and the text that it accepts is the one that the writer writes
exactly when the port has no leading zero. -/
theorem parseEndpoint_exact :
    (∀ endpoint host port, parseEndpoint endpoint = some (host, port) ↔
      validateHostString host = true ∧ ∃ text, endpoint = host ++ 58 :: text ∧ IsPortText text ∧
        decimalValue text = port.toNat) ∧
    (∀ host port, parseEndpoint (formatEndpoint host port) = some (host, port) ↔
      validateHostString host = true ∧ port ≠ 0) ∧
    ∀ endpoint host port, parseEndpoint endpoint = some (host, port) →
      (formatEndpoint host port = endpoint ↔ endpoint[host.length + 1]? ≠ some 48) := by
  refine ⟨fun _ _ _ => parseEndpoint_eq_some_iff, fun host port => ?_, fun endpoint host port h => ?_⟩
  · have hformat : formatEndpoint host port = host ++ 58 :: decimalText port.toNat := by
      unfold formatEndpoint
      rw [List.append_assoc, List.singleton_append]
    rw [parseEndpoint_eq_some_iff, hformat]
    refine and_congr_right fun _ => ⟨?_, fun hport => ?_⟩
    · rintro ⟨text, -, htext, hvalue⟩ rfl
      have hpos := htext.pos
      rw [hvalue] at hpos
      exact absurd hpos (Nat.lt_irrefl 0)
    · exact ⟨_, rfl, isPortText_decimalText hport, decimalValue_decimalText⟩
  · obtain ⟨-, text, rfl, htext, hvalue⟩ := parseEndpoint_eq_some_iff.mp h
    have hhead : (host ++ 58 :: text)[host.length + 1]? = text.head? := by
      rw [List.getElem?_append_right (Nat.le_succ _),
        show host.length.succ - host.length = 1 by omega, List.getElem?_cons_succ,
        List.head?_eq_getElem?]
    unfold formatEndpoint
    rw [hhead, List.append_assoc, List.singleton_append, List.append_cancel_left_eq,
      List.cons.injEq, and_iff_right rfl, ← hvalue]
    constructor
    · intro hcanonical hzero
      -- the text of a positive number does not begin with a zero
      have hdecimal : IsDecimal text := hcanonical ▸ isDecimal_decimalText
      have hshort : ¬ 1 < text.length := fun hlong => hdecimal.no_leading_zero hlong hzero
      have hpos := htext.pos
      cases text with
      | nil => cases hzero
      | cons c text =>
        rw [List.length_cons] at hshort
        rw [List.length_eq_zero_iff.mp (show text.length = 0 by omega),
          Option.some.inj hzero] at hpos
        exact absurd hpos (by decide)
    · intro hhead
      exact (IsDecimal.eq_decimalText ⟨htext.ne_nil, htext.digits, fun _ => hhead⟩).symm

end Port

end PathPlanner
