import PathPlanner.Core.Words
import PathPlanner.Library.Decoder

/-!
# Strict decoding

A `ByteReader` walks over bytes and checks before each access that enough of them remain. An access
outside the bytes is a fault here, so that its absence can be stated. A read that fails latches the
reader in the source, so reads that are checked together there fail together; here the first one
that fails stops the decoder for the reason of the check.

## Main definitions

* `ByteReader`: the bytes and the position
* `ByteReader.fixedBytes`, `ByteReader.uint`, `ByteReader.varU64`, `ByteReader.bool`,
  `ByteReader.text`, `ByteReader.array`, `ByteReader.quantity`: the primitive reads

## Main results

* `ByteReader.fixedBytes_spells` and the like: each read accepts exactly the words of its values
* `ByteReader.varU64_spells`: no number has a second word
-/

namespace PathPlanner

open Decoder

/-- `std::span::subspan`: an access that the caller keeps inside the bytes. -/
def subspan {ε : Type} (bytes : List UInt8) (offset count : ℕ) :
    Except (Stop ε) (List UInt8) :=
  if offset + count ≤ bytes.length then .ok ((bytes.drop offset).take count) else .error .fault

theorem subspan_eq_ok {ε : Type} {bytes : List UInt8} {offset count : ℕ}
    (h : offset + count ≤ bytes.length) :
    (subspan bytes offset count : Except (Stop ε) _) = .ok ((bytes.drop offset).take count) :=
  if_pos h

/-- `ByteReader`. -/
structure ByteReader where
  data : List UInt8
  position : ℕ
  inBounds : position ≤ data.length

namespace ByteReader

variable {ε : Type} {reason : ε}

/-- A reader at the start of the bytes. -/
def new (data : List UInt8) : ByteReader := ⟨data, 0, Nat.zero_le _⟩

instance : Source ByteReader UInt8 where
  rest r := r.data.drop r.position
  skip n r := ⟨r.data, min (r.position + n) r.data.length, Nat.min_le_right _ _⟩
  skip_zero r := by
    obtain ⟨data, position, h⟩ := r
    simp only [ByteReader.mk.injEq, true_and, Nat.add_zero]
    exact Nat.min_eq_left h
  skip_add m n r := by
    simp only [ByteReader.mk.injEq, true_and]
    omega
  rest_skip n r := by
    change r.data.drop (min (r.position + n) r.data.length) = (r.data.drop r.position).drop n
    rw [List.drop_drop]
    rcases Nat.le_total (r.position + n) r.data.length with h | h
    · rw [Nat.min_eq_left h]
    · rw [Nat.min_eq_right h, List.drop_length, List.drop_eq_nil_of_le h]

@[simp] theorem rest_new (data : List UInt8) : Source.rest (new data) = data := rfl

/-- `ByteReader::AtEnd`. -/
def atEnd (r : ByteReader) : Bool := r.position == r.data.length

theorem atEnd_iff {r : ByteReader} : r.atEnd = true ↔ Source.rest r = [] := by
  have hbound := r.inBounds
  change (r.position == r.data.length) = true ↔ r.data.drop r.position = []
  rw [beq_iff_eq, List.drop_eq_nil_iff]
  omega

/-- The byte at an offset from the position. -/
def byteAt (r : ByteReader) (offset : ℕ) : Except (Stop ε) UInt8 :=
  match r.data[r.position + offset]? with
  | some byte => .ok byte
  | none => .error .fault

/-- `ByteReader::View` and `ByteReader::FixedBytes`: the next `count` bytes. -/
def fixedBytes (count : ℕ) (reason : ε) : Decoder ByteReader ε (List UInt8) := fun r =>
  if h : count > r.data.length - r.position then .error (.refused reason)
  else do
    let bytes ← (List.range count).mapM r.byteAt
    pure (bytes, ⟨r.data, r.position + count, by have := r.inBounds; omega⟩)

/-- The value of bytes, least significant first. -/
def ofLittleEndian : List UInt8 → ℕ
  | [] => 0
  | byte :: bytes => byte.toNat + 256 * ofLittleEndian bytes

/-- `ByteReader::U8`, `U16`, `U32` and `U64`: an unsigned number of `count` bytes. -/
def uint (count : ℕ) (reason : ε) : Decoder ByteReader ε ℕ := do
  let bytes ← fixedBytes count reason
  pure (ofLittleEndian bytes)

/-- `ByteReader::U16`. -/
def u16 (reason : ε) : Decoder ByteReader ε UInt16 := UInt16.ofNat <$> uint 2 reason

/-- `ByteReader::U32`. -/
def u32 (reason : ε) : Decoder ByteReader ε UInt32 := UInt32.ofNat <$> uint 4 reason

/-- `ByteReader::U64`. -/
def u64 (reason : ε) : Decoder ByteReader ε UInt64 := UInt64.ofNat <$> uint 8 reason

/-- The loop of `VarU64`, with the number of bytes that may follow, the shift in groups and the value
of the groups before. -/
def groups (reason : ε) : ℕ → ℕ → ℕ → Decoder ByteReader ε ℕ
  | 0, _, _ => refuse reason
  | rounds + 1, i, value => do
    let byte ← uint 1 reason
    let low := byte % 0x80
    ensure (¬ (7 * i = 63 ∧ low > 1)) reason
    if byte < 0x80 then do
      ensure (¬ (i > 0 ∧ low = 0)) reason
      pure (value + low * 2 ^ (7 * i))
    else groups reason rounds (i + 1) (value + low * 2 ^ (7 * i))

/-- `ByteReader::VarU64`. -/
def varU64 (reason : ε) : Decoder ByteReader ε ℕ := groups reason 10 0 0

/-- `ByteReader::Bool`. -/
def bool (reason : ε) : Decoder ByteReader ε Bool := do
  let value ← uint 1 reason
  ensure (value ≤ 1) reason
  pure (value = 1)

/-- The bytes of a text. -/
def textBytes (length : ℕ) (reason : ε) : Decoder ByteReader ε (List UInt8) := fun r =>
  if length > r.data.length then .error (.refused reason) else fixedBytes length reason r

/-- `ByteReader::Text`. -/
def text (reason : ε) : Decoder ByteReader ε (List UInt8) := do
  let length ← varU64 reason
  textBytes length reason

/-- An array of bytes. -/
def array (n : ℕ) (reason : ε) : Decoder ByteReader ε (Vector UInt8 n) := do
  let bytes ← fixedBytes n reason
  pure (Vector.ofFn fun i => bytes.getD i 0)

/-- An identity of any bytes. -/
def rawId {Tag : Type} {n : ℕ} (reason : ε) : Decoder ByteReader ε (FixedId Tag n) :=
  FixedId.mk <$> array n reason

/-- A digest. -/
def digest (reason : ε) : Decoder ByteReader ε Sha256Digest := Sha256Digest.mk <$> array 32 reason

/-- A quantity of `count` bytes that needs no check. -/
def quantity {Tag : Type} {width bound : ℕ} (count : ℕ) (reason : ε) :
    Decoder ByteReader ε (StrongUInt Tag width bound) :=
  StrongUInt.ofNat <$> uint count reason

/-- A quantity of `count` bytes that has to be within its bound. -/
def bounded {Tag : Type} {width bound : ℕ} (count : ℕ) (missing range : ε) :
    Decoder ByteReader ε (StrongUInt Tag width bound) := do
  let value ← quantity count missing
  match StrongUInt.tryFrom value with
  | some value => pure value
  | none => refuse range

/-- A value behind a flag. -/
def optional {α : Type} (reason : ε) (d : Decoder ByteReader ε α) :
    Decoder ByteReader ε (Option α) := do
  if ← bool reason then some <$> d else pure none

/-- A list behind its length, each element decoded in view of the elements before it. -/
def counted {α : Type} (limit : ℕ) (missing exceeded : ε) (d : List α → Decoder ByteReader ε α) :
    Decoder ByteReader ε (List α) := do
  let count ← varU64 missing
  ensure (count ≤ limit) exceeded
  collect d count []

/-! ## Bytes -/

theorem mapM_eq_ok {α γ : Type} {f : α → Except (Stop ε) γ} {g : α → γ} {as : List α}
    (h : ∀ a ∈ as, f a = .ok (g a)) : as.mapM f = .ok (as.map g) := by
  induction as with
  | nil => rfl
  | cons a as ih =>
    obtain ⟨ha, has⟩ := List.forall_mem_cons.mp h
    rw [List.mapM_cons, ha, ih has]
    rfl

/-- A read of bytes that are there succeeds with them. -/
theorem run_fixedBytes {count : ℕ} {r : ByteReader} (h : count ≤ (Source.rest r).length) :
    (fixedBytes count reason).run r = .ok ((Source.rest r).take count, Source.skip count r) := by
  have hrest : (Source.rest r).length = r.data.length - r.position := List.length_drop
  have hbound := r.inBounds
  rw [hrest] at h
  have hbytes : (List.range count).mapM (r.byteAt (ε := ε)) = .ok ((Source.rest r).take count) := by
    rw [mapM_eq_ok (g := fun i => r.data.getD (r.position + i) 0) fun i hi => ?_]
    · congr 1
      apply List.ext_getElem
      · rw [List.length_map, List.length_range, List.length_take, hrest]
        omega
      · intro i hi hi'
        rw [List.length_map, List.length_range] at hi
        have hlt : r.position + i < r.data.length := by omega
        change _ = (List.take count (r.data.drop r.position))[i]
        rw [List.getElem_map, List.getElem_range, List.getElem_take, List.getElem_drop,
          List.getD_eq_getElem?_getD, List.getElem?_eq_getElem hlt, Option.getD_some]
    · have hlt : r.position + i < r.data.length := by
        have := List.mem_range.mp hi
        omega
      unfold byteAt
      rw [List.getD_eq_getElem?_getD, List.getElem?_eq_getElem hlt, Option.getD_some]
  change fixedBytes count reason r = _
  unfold fixedBytes
  rw [dif_neg (not_lt.mpr h), hbytes]
  change Except.ok _ = Except.ok _
  congr 2
  change (⟨_, _, _⟩ : ByteReader) = ⟨_, _, _⟩
  simp only [ByteReader.mk.injEq, true_and]
  omega

/-- **Bytes**: any bytes of the length are accepted. -/
theorem fixedBytes_spells (count : ℕ) (reason : ε) :
    Spells (fixedBytes count reason) (fun bytes => bytes.length = count) id := by
  have hfew {r : ByteReader} (h : ¬ count ≤ (Source.rest r).length) :
      (fixedBytes count reason).run r = .error (.refused reason) := by
    have hrest : (Source.rest r).length = r.data.length - r.position := List.length_drop
    rw [hrest] at h
    exact dif_pos (not_le.mp h)
  refine ⟨fun r bytes r' => ?_, fun r hr => ?_⟩
  · constructor
    · intro h
      by_cases hcount : count ≤ (Source.rest r).length
      · rw [run_fixedBytes hcount] at h
        obtain ⟨rfl, rfl⟩ := Prod.mk.inj (Except.ok.inj h)
        have hlength : ((Source.rest r).take count).length = count := by
          rw [List.length_take]
          omega
        exact ⟨hlength, List.take_prefix _ _, by rw [id, hlength]⟩
      · rw [hfew hcount] at h
        cases h
    · rintro ⟨rfl, hprefix, rfl⟩
      change bytes <+: Source.rest r at hprefix
      rw [run_fixedBytes hprefix.length_le, ← List.prefix_iff_eq_take.mp hprefix]
      rfl
  · by_cases hcount : count ≤ (Source.rest r).length
    · rw [run_fixedBytes hcount] at hr
      cases hr
    · rw [hfew hcount] at hr
      cases hr

/-! ## Numbers and flags -/

theorem ofLittleEndian_littleEndian {count value : ℕ} (h : value < 256 ^ count) :
    ofLittleEndian (littleEndian count value) = value := by
  induction count generalizing value with
  | zero =>
    rw [pow_zero] at h
    rw [littleEndian, ofLittleEndian]
    omega
  | succ count ih =>
    have hdiv : value / 256 < 256 ^ count := by
      rw [pow_succ] at h
      exact Nat.div_lt_of_lt_mul (by rwa [mul_comm])
    have hbyte : (UInt8.ofNat (value % 256)).toNat = value % 256 := by
      simp
    rw [littleEndian, ofLittleEndian, ih hdiv, hbyte]
    exact Nat.mod_add_div value 256

theorem littleEndian_one {value : ℕ} (h : value < 256) :
    littleEndian 1 value = [UInt8.ofNat value] := by
  rw [littleEndian, littleEndian, Nat.mod_eq_of_lt h]

theorem littleEndian_ofLittleEndian (bytes : List UInt8) :
    littleEndian bytes.length (ofLittleEndian bytes) = bytes := by
  induction bytes with
  | nil => rfl
  | cons byte bytes ih =>
    have hbyte := byte.toNat_lt
    have hmod : (byte.toNat + 256 * ofLittleEndian bytes) % 256 = byte.toNat := by omega
    have hdiv : (byte.toNat + 256 * ofLittleEndian bytes) / 256 = ofLittleEndian bytes := by omega
    rw [List.length_cons, ofLittleEndian, littleEndian, hmod, hdiv, ih, UInt8.ofNat_toNat]

theorem ofLittleEndian_lt (bytes : List UInt8) : ofLittleEndian bytes < 256 ^ bytes.length := by
  induction bytes with
  | nil => exact Nat.one_pos
  | cons byte bytes ih =>
    have hbyte := byte.toNat_lt
    rw [ofLittleEndian, List.length_cons, pow_succ]
    omega

/-- **Unsigned numbers** of a width. -/
theorem uint_spells (count : ℕ) (reason : ε) :
    Spells (uint count reason) (fun value => value < 256 ^ count) (littleEndian count) := by
  refine (fixedBytes_spells count reason).bind (fun bytes _ => .pure _) (fun value => ?_)
    fun bytes value hbytes hvalue => ?_
  · constructor
    · intro h
      exact ⟨littleEndian count value, length_littleEndian _ _, (ofLittleEndian_littleEndian h).symm⟩
    · rintro ⟨bytes, rfl, rfl⟩
      exact ofLittleEndian_lt bytes
  · obtain rfl : bytes.length = count := hbytes
    obtain rfl : value = ofLittleEndian bytes := hvalue
    rw [littleEndian_ofLittleEndian, id, List.append_nil]

theorem u16_spells (reason : ε) :
    Spells (u16 reason) (fun _ => True) (fun value => littleEndian 2 value.toNat) := by
  refine (uint_spells 2 reason).map (fun value => ?_) fun value hvalue => ?_
  · exact ⟨fun _ => ⟨value.toNat_lt, UInt16.ofNat_toNat⟩, fun _ => trivial⟩
  · exact UInt16.toNat_ofNat_of_lt hvalue

theorem u32_spells (reason : ε) :
    Spells (u32 reason) (fun _ => True) (fun value => littleEndian 4 value.toNat) := by
  refine (uint_spells 4 reason).map (fun value => ?_) fun value hvalue => ?_
  · exact ⟨fun _ => ⟨value.toNat_lt, UInt32.ofNat_toNat⟩, fun _ => trivial⟩
  · exact UInt32.toNat_ofNat_of_lt hvalue

theorem u64_spells (reason : ε) :
    Spells (u64 reason) (fun _ => True) (fun value => littleEndian 8 value.toNat) := by
  refine (uint_spells 8 reason).map (fun value => ?_) fun value hvalue => ?_
  · exact ⟨fun _ => ⟨value.toNat_lt, UInt64.ofNat_toNat⟩, fun _ => trivial⟩
  · exact UInt64.toNat_ofNat_of_lt hvalue

/-- What the groups from the `i`-th on may hold: together they have the bits that remain, and only
the first of all groups may be zero. -/
def IsTail (i u : ℕ) : Prop := u < 2 ^ (64 - 7 * i) ∧ (i > 0 → u ≠ 0)

/-- The last group is accepted exactly when it may stand alone. -/
theorem isTail_iff_of_lt {i low : ℕ} (hi : i < 10) (hlow : low < 0x80) :
    IsTail i low ↔ ¬ (7 * i = 63 ∧ low > 1) ∧ ¬ (i > 0 ∧ low = 0) := by
  have hbits : low < 2 ^ (64 - 7 * i) ↔ ¬ (7 * i = 63 ∧ low > 1) := by
    rcases Nat.lt_succ_iff_lt_or_eq.mp hi with hlt | rfl
    · have hpow : 2 ^ 7 ≤ 2 ^ (64 - 7 * i) := Nat.pow_le_pow_right (by decide) (by omega)
      omega
    · omega
  rw [IsTail, hbits, not_and (a := i > 0)]

/-- A group that is continued is followed by a tail. -/
theorem isTail_add_iff {i low u : ℕ} (hi : i < 10) (hlow : low < 0x80) (hu : u ≠ 0) :
    IsTail i (low + u * 0x80) ↔ IsTail (i + 1) u := by
  have hbits : low + u * 0x80 < 2 ^ (64 - 7 * i) ↔ u < 2 ^ (64 - 7 * (i + 1)) := by
    rcases Nat.lt_succ_iff_lt_or_eq.mp hi with hlt | rfl
    · have hpow : 2 ^ (64 - 7 * i) = 2 ^ (64 - 7 * (i + 1)) * 0x80 := by
        rw [show 64 - 7 * i = 64 - 7 * (i + 1) + 7 by omega, pow_add]
        norm_num
      rw [hpow]
      omega
    · omega
  unfold IsTail
  rw [hbits]
  omega

/-- The loop of `VarU64` reads the groups of what the value exceeds the groups before by. The number
of groups before and the number of bytes that may follow are ten together, so the last byte holds a
single bit. -/
theorem groups_spells (reason : ε) (rounds i value : ℕ) (hi : i + rounds = 10) :
    Spells (groups reason rounds i value)
      (fun v => ∃ u, v = value + u * 2 ^ (7 * i) ∧ IsTail i u)
      (fun v => varGroups (rounds - 1) ((v - value) / 2 ^ (7 * i))) := by
  induction rounds generalizing i value with
  | zero =>
    obtain rfl : i = 10 := hi
    refine .refuse fun v => ?_
    rintro ⟨u, -, hu, hne⟩
    exact hne (by decide) (by omega)
  | succ rounds ih =>
    have hlt : i < 10 := by omega
    -- the byte of a group is the group, marked when another one follows
    refine (uint_spells 1 reason).bind
      (K := fun byte v => ∃ u, v = value + u * 2 ^ (7 * i) ∧ IsTail i u ∧
        byte = if u ≥ 0x80 then u % 0x80 + 0x80 else u)
      (w := fun byte v => if byte < 0x80 then []
        else varGroups (rounds - 1) ((v - value) / 2 ^ (7 * i) / 0x80))
      (fun byte hbyte => ?_) (fun v => ?_) ?_
    · have hbyte : byte < 256 := hbyte
      have hlow : byte % 0x80 < 0x80 := Nat.mod_lt _ (by decide)
      refine .guard (fun hover v => ?_) fun hover => ?_
      · -- only a single bit is left for the tenth byte
        rintro ⟨u, -, ⟨hu, -⟩, rfl⟩
        have hi : i = 9 := by omega
        subst hi
        rw [if_neg (by omega)] at hover
        omega
      · split_ifs with hend
        · rw [Nat.mod_eq_of_lt hend] at hover ⊢
          refine .guard (fun hzero v => ?_) fun hzero => ?_
          · rintro ⟨u, -, hu, hmark⟩
            obtain rfl : byte = u := by
              split_ifs at hmark <;> omega
            exact hzero ((isTail_iff_of_lt hlt hend).mp hu).2
          · refine (Spells.pure (σ := ByteReader) _).congr (fun v => ?_) fun _ _ => rfl
            constructor
            · rintro ⟨u, rfl, hu, hmark⟩
              obtain rfl : byte = u := by
                split_ifs at hmark <;> omega
              rfl
            · rintro rfl
              exact ⟨byte, rfl, (isTail_iff_of_lt hlt hend).mpr ⟨hover, hzero⟩,
                (if_neg (by omega)).symm⟩
        · have hpow : 2 ^ (7 * (i + 1)) = 0x80 * 2 ^ (7 * i) := by
            rw [Nat.mul_succ, pow_add, mul_comm]
            norm_num
          refine (ih (i + 1) _ (by omega)).congr (fun v => ?_) ?_
          · constructor
            · rintro ⟨u, rfl, hu, rfl⟩
              have hmore : u ≥ 0x80 := by
                by_contra hless
                rw [if_neg hless] at hend
                omega
              rw [if_pos hmore] at *
              have hmod : (u % 0x80 + 0x80) % 0x80 = u % 0x80 := by omega
              have hu' := Nat.mod_add_div' u 0x80
              refine ⟨u / 0x80, ?_, ?_⟩
              · rw [hmod, hpow]
                nth_rewrite 1 [← hu']
                ring
              · rw [← isTail_add_iff hlt (Nat.mod_lt u (by decide)) (by omega), hu']
                exact hu
            · rintro ⟨u, rfl, hu⟩
              have hne := hu.2 i.succ_pos
              refine ⟨byte % 0x80 + u * 0x80, ?_, (isTail_add_iff hlt hlow hne).mpr hu, ?_⟩
              · rw [hpow]
                ring
              · rw [if_pos (by omega)]
                omega
          · rintro v ⟨u, rfl, -⟩
            have hsmall : byte % 0x80 * 2 ^ (7 * i) < 2 ^ (7 * (i + 1)) := by
              rw [hpow]
              exact (Nat.mul_lt_mul_right (by positivity)).mpr hlow
            rw [Nat.add_sub_cancel_left, Nat.div_div_eq_div_mul, mul_comm (2 ^ (7 * i)), ← hpow,
              Nat.add_assoc, Nat.add_sub_cancel_left, Nat.add_mul_div_right _ _ (by positivity),
              Nat.div_eq_of_lt hsmall, zero_add, Nat.mul_div_cancel _ (by positivity)]
    · constructor
      · rintro ⟨u, hv, hu⟩
        refine ⟨if u ≥ 0x80 then u % 0x80 + 0x80 else u, ?_, u, hv, hu, rfl⟩
        split_ifs <;> omega
      · rintro ⟨_, -, u, hv, hu, -⟩
        exact ⟨u, hv, hu⟩
    · rintro byte v - ⟨u, rfl, hu, rfl⟩
      rw [Nat.add_sub_cancel_left, Nat.mul_div_cancel _ (by positivity), Nat.add_sub_cancel]
      by_cases hmore : u ≥ 0x80
      · obtain ⟨rounds, rfl⟩ : ∃ n, rounds = n + 1 := by
          refine Nat.exists_eq_succ_of_ne_zero fun hzero => ?_
          obtain rfl : i = 9 := by omega
          have := hu.1
          omega
        rw [if_pos hmore, if_neg (by omega), varGroups, if_pos hmore, littleEndian_one (by omega),
          List.singleton_append, Nat.add_sub_cancel]
      · rw [if_neg hmore, if_pos (by omega), List.append_nil]
        have hsingle : varGroups rounds u = [UInt8.ofNat u] := by
          cases rounds with
          | zero => rfl
          | succ rounds => rw [varGroups, if_neg hmore]
        rw [hsingle, littleEndian_one (by omega)]

/-- **Numbers of variable length**: no number has a second word. -/
theorem varU64_spells (reason : ε) :
    Spells (varU64 reason) (fun value => value < 2 ^ 64) varWord := by
  refine (groups_spells reason 10 0 0 rfl).congr (fun value => ?_) fun value _ => ?_
  · constructor
    · exact fun h => ⟨value, by ring, h, fun h => absurd h (lt_irrefl 0)⟩
    · rintro ⟨u, rfl, hu, -⟩
      simpa using hu
  · rw [Nat.sub_zero, Nat.mul_zero, pow_zero, Nat.div_one]
    rfl

/-- **Flags**: zero and one, and nothing else. -/
theorem bool_spells (reason : ε) : Spells (bool reason) (fun _ => True) boolWord := by
  refine (uint_spells 1 reason).bind
    (K := fun byte (value : Bool) => byte = if value then 1 else 0) (w := fun _ _ => [])
    (fun byte _ => ?_) (fun value => ?_) fun byte value _ h => ?_
  · refine .guard (fun hbyte value h => hbyte ?_) fun hbyte => ?_
    · rw [h]
      split_ifs <;> decide
    · refine (Spells.pure (σ := ByteReader) _).congr (fun value => ?_) fun _ _ => rfl
      interval_cases byte <;> cases value <;> decide
  · rw [true_iff]
    exact ⟨if value then 1 else 0, by split_ifs <;> decide, rfl⟩
  · obtain rfl : byte = if value then 1 else 0 := h
    cases value <;> rfl

/-! ## Arrays, texts and quantities -/

/-- An array of the bytes of a list of its length. -/
theorem toList_ofFn_getD {n : ℕ} {bytes : List UInt8} (h : bytes.length = n) :
    (Vector.ofFn fun i : Fin n => bytes.getD i 0).toList = bytes := by
  subst h
  apply List.ext_getElem
  · simp
  · intro i hi hi'
    simp

theorem array_spells (n : ℕ) (reason : ε) :
    Spells (array n reason) (fun _ => True) Vector.toList := by
  refine (fixedBytes_spells n reason).bind (fun bytes _ => .pure _) (fun a => ?_)
    fun bytes a hbytes h => ?_
  · rw [true_iff]
    exact ⟨a.toList, Vector.length_toList, Vector.toList_inj.mp
      (toList_ofFn_getD Vector.length_toList).symm⟩
  · obtain rfl : a = _ := h
    rw [List.append_nil]
    exact toList_ofFn_getD hbytes

/-- **Identities** of any bytes. -/
theorem rawId_spells {Tag : Type} {n : ℕ} (reason : ε) :
    Spells (rawId reason) (fun _ : FixedId Tag n => True) FixedId.word :=
  (array_spells n reason).map (g := FixedId.bytes) (fun _ => by simp) fun _ _ => rfl

/-- **Digests**. -/
theorem digest_spells (reason : ε) :
    Spells (digest reason) (fun _ => True) Sha256Digest.word :=
  (array_spells 32 reason).map (g := Sha256Digest.bytes) (fun _ => by simp) fun _ _ => rfl

theorem textBytes_eq (length : ℕ) (reason : ε) :
    textBytes length reason = fixedBytes length reason := by
  funext r
  have hbound := r.inBounds
  unfold textBytes fixedBytes
  split_ifs with h hmore
  · rfl
  · omega
  · rfl
  · rfl

/-- **Texts**. -/
theorem text_spells (reason : ε) :
    Spells (text reason) (fun bytes => bytes.length < 2 ^ 64) textWord := by
  refine (varU64_spells reason).bind (K := fun length bytes => bytes.length = length)
    (w := fun _ bytes => bytes) (fun length _ => ?_) (fun bytes => ?_) fun length bytes _ h => ?_
  · rw [textBytes_eq]
    exact fixedBytes_spells length reason
  · simp
  · rw [textWord, h]

/-- **Quantities** that need no check. -/
theorem quantity_spells {Tag : Type} {width bound count : ℕ} (h : 2 ^ width = 256 ^ count)
    (reason : ε) : Spells (quantity count reason) (fun _ : StrongUInt Tag width bound => True)
      (fun value => littleEndian count value.value) := by
  refine (uint_spells count reason).map (g := StrongUInt.value) (fun value => ?_) fun value hvalue => ?_
  · rw [true_iff, ← h]
    refine ⟨value.lt, StrongUInt.ext_iff.mpr ?_⟩
    rw [StrongUInt.value_ofNat, Nat.mod_eq_of_lt value.lt]
  · rw [StrongUInt.value_ofNat, Nat.mod_eq_of_lt (h ▸ hvalue)]

/-- **Quantities** within their bound. -/
theorem bounded_spells {Tag : Type} {width bound count : ℕ} (h : 2 ^ width = 256 ^ count)
    (missing range : ε) :
    Spells (bounded count missing range) (fun value : StrongUInt Tag width bound => value.value ≤ bound)
      (fun value => littleEndian count value.value) := by
  refine (quantity_spells h missing).bind
    (K := fun value value' => value' = value ∧ value.value ≤ bound) (w := fun _ _ => [])
    (fun value _ => ?_) (fun value => ?_) fun value value' _ hvalue => ?_
  · unfold StrongUInt.tryFrom
    split_ifs with hbound
    · exact .refuse fun value' hvalue => hbound.not_ge hvalue.2
    · exact (Spells.pure value).congr (fun value' => and_iff_left (not_lt.mp hbound)) fun _ _ => rfl
  · simp
  · rw [hvalue.1, List.append_nil]

/-! ## Options and lists -/

/-- A configured ceiling is a number of variable length. -/
theorem ceiling_lt (limit : UInt32) : limit.toNat < 2 ^ 64 :=
  limit.toNat_lt.trans (by norm_num)

section Composite

variable {α : Type} {P : α → Prop} {word : α → List UInt8}

/-- **Options**: the flag says whether there is a value. -/
theorem optional_spells {d : Decoder ByteReader ε α} (h : Spells d P word) (reason : ε) :
    Spells (optional reason d) (fun o => ∀ a ∈ o, P a) (optionWord word) := by
  refine (bool_spells reason).bind (K := fun b o => o.isSome = b ∧ ∀ a ∈ o, P a)
    (w := fun _ o => o.elim [] word) (fun b _ => ?_) (fun o => by simp) fun b o _ ho => ?_
  · cases b with
    | false =>
      refine (Spells.pure none).congr (fun o => ?_) fun o ho => by rw [ho]; rfl
      cases o <;> simp
    | true =>
      refine h.bind (K := fun a o => o = some a) (w := fun _ _ => []) (fun a _ => .pure _)
        (fun o => ?_) fun a o _ ho => ?_
      · cases o <;> simp
      · rw [ho, List.append_nil]
        rfl
  · rw [← ho.1]
    rfl

/-- **Lists** behind their length. -/
theorem counted_spells {d : List α → Decoder ByteReader ε α} {P : List α → α → Prop} {limit : ℕ}
    (h : ∀ before, Spells (d before) (P before) word) (hlimit : limit < 2 ^ 64) (missing exceeded : ε) :
    Spells (counted limit missing exceeded d) (fun l => l.length ≤ limit ∧ EachAfter P l)
      (listWord word) := by
  refine (varU64_spells missing).bind
    (K := fun count l => l.length = count ∧ count ≤ limit ∧ EachAfter P l)
    (w := fun _ l => l.flatMap word) (fun count _ => ?_) (fun l => ?_) fun count l _ hl => ?_
  · refine .guard (fun hcount l hl => hcount hl.2.1) fun hcount => ?_
    refine (Spells.collect h count []).congr (fun l => ?_) fun _ _ => rfl
    simp [hcount]
  · constructor
    · exact fun hl => ⟨l.length, by omega, rfl, hl⟩
    · rintro ⟨_, -, rfl, hl⟩
      exact hl
  · rw [listWord, hl.1]

/-- Lists behind their length whose elements are decoded alike. -/
theorem counted_spells_of_const {d : Decoder ByteReader ε α} {limit : ℕ} (h : Spells d P word)
    (hlimit : limit < 2 ^ 64) (missing exceeded : ε) :
    Spells (counted limit missing exceeded fun _ => d) (fun l => l.length ≤ limit ∧ ∀ a ∈ l, P a)
      (listWord word) :=
  (counted_spells (fun _ => h) hlimit missing exceeded).congr
    (fun l => by rw [eachAfter_const_iff]) fun _ _ => rfl

end Composite

end ByteReader

end PathPlanner
