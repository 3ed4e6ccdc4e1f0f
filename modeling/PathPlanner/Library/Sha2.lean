import Mathlib.Data.Nat.ModEq
import Mathlib.Data.Nat.NthRoot.Defs
import Mathlib.Data.Nat.Nth
import Mathlib.Data.Nat.Prime.Basic
import Mathlib.Order.Bounds.Basic
import Mathlib.Tactic
import PathPlanner.Library.BlockFold

/-!
# The secure hash standard

SHA-256 as FIPS 180-4 defines it: on messages of bits, with constants that are taken from the roots
of the first prime numbers. The second half of the file is about messages that are given as bytes.

## Main definitions

* `constant`, `initialWord`: the constants
* `pad`: a message with its padding
* `schedule`, `round`, `compress`: the computation on one block
* `sha256`: the digest
* `bits`: the bits of a list of bytes

## Main results

* `pad_bits`: the padding of a message of bytes
* `compress_congr`: a block enters through its sixteen words
-/

namespace Sha2

open BlockFold

/-- A word of 32 bits. -/
abbrev Word := BitVec 32

/-! ## Functions -/

def ch (x y z : Word) : Word := (x &&& y) ^^^ (~~~x &&& z)

def maj (x y z : Word) : Word := (x &&& y) ^^^ (x &&& z) ^^^ (y &&& z)

def bigSigma0 (x : Word) : Word := x.rotateRight 2 ^^^ x.rotateRight 13 ^^^ x.rotateRight 22

def bigSigma1 (x : Word) : Word := x.rotateRight 6 ^^^ x.rotateRight 11 ^^^ x.rotateRight 25

def smallSigma0 (x : Word) : Word := x.rotateRight 7 ^^^ x.rotateRight 18 ^^^ (x >>> 3)

def smallSigma1 (x : Word) : Word := x.rotateRight 17 ^^^ x.rotateRight 19 ^^^ (x >>> 10)

/-! ## Constants -/

/-- Eight words: a hash value, or the working variables. -/
@[ext]
structure State where
  a : Word
  b : Word
  c : Word
  d : Word
  e : Word
  f : Word
  g : Word
  h : Word

/-- The first thirty-two bits of the fractional part of a root. -/
def rootFraction (degree p : ℕ) : Word :=
  BitVec.ofNat 32 (Nat.nthRoot degree (p * 2 ^ (32 * degree)))

/-- The constant of a round: from the cube root of a prime number. -/
noncomputable def constant (t : ℕ) : Word := rootFraction 3 (Nat.nth Nat.Prime t)

/-- A word of the initial hash value: from the square root of a prime number. -/
noncomputable def initialWord (i : ℕ) : Word := rootFraction 2 (Nat.nth Nat.Prime i)

/-- The initial hash value. -/
noncomputable def initialHash : State :=
  ⟨initialWord 0, initialWord 1, initialWord 2, initialWord 3, initialWord 4, initialWord 5,
    initialWord 6, initialWord 7⟩

/-! ## Bits -/

/-- The low bits of a number, most significant first. -/
def natBits : ℕ → ℕ → List Bool
  | 0, _ => []
  | width + 1, n => natBits width (n / 2) ++ [n.testBit 0]

/-- The number that bits spell, most significant first. -/
def ofBits (bits : List Bool) : ℕ := bits.foldl (fun n bit => 2 * n + bit.toNat) 0

/-- The word that bits spell. -/
def word (bits : List Bool) : Word := BitVec.ofNat 32 (ofBits bits)

/-! ## The hash -/

/-- The number of zeros between the message and its length, as few as fill the last block. -/
def paddingZeros (length : ℕ) : ℕ := (959 - length % 512) % 512

/-- The message, a one, zeros, and the length of the message. -/
def pad (message : List Bool) : List Bool :=
  message ++ true :: (List.replicate (paddingZeros message.length) false ++
    natBits 64 message.length)

/-- The message schedule of a block. -/
def schedule (block : List Bool) (t : ℕ) : Word :=
  if t < 16 then word (BlockFold.block 32 block t)
  else smallSigma1 (schedule block (t - 2)) + schedule block (t - 7) +
    smallSigma0 (schedule block (t - 15)) + schedule block (t - 16)

/-- One round. -/
def round (k w : Word) (s : State) : State :=
  let t₁ := s.h + bigSigma1 s.e + ch s.e s.f s.g + k + w
  let t₂ := bigSigma0 s.a + maj s.a s.b s.c
  { a := t₁ + t₂
    b := s.a
    c := s.b
    d := s.c
    e := s.d + t₁
    f := s.e
    g := s.f
    h := s.g }

/-- The words of two states, added. -/
def State.add (s s' : State) : State where
  a := s.a + s'.a
  b := s.b + s'.b
  c := s.c + s'.c
  d := s.d + s'.d
  e := s.e + s'.e
  f := s.f + s'.f
  g := s.g + s'.g
  h := s.h + s'.h

/-- The hash value after a block. -/
noncomputable def compress (s : State) (block : List Bool) : State :=
  s.add ((List.range 64).foldl (fun v t => round (constant t) (schedule block t) v) s)

/-- The bits of a state. -/
def State.bits (s : State) : List Bool :=
  [s.a, s.b, s.c, s.d, s.e, s.f, s.g, s.h].flatMap fun w => natBits 32 w.toNat

/-- **The digest of a message.** -/
noncomputable def sha256 (message : List Bool) : List Bool :=
  (foldBlocks 512 compress initialHash (pad message)).bits

/-! ## Prime numbers -/

/-- The numbers with a property are found by going through the numbers. -/
theorem nth_eq_of_getElem? {p : ℕ → Prop} [DecidablePred p] (bound : ℕ) {t q : ℕ}
    (h : ((List.range bound).filter p)[t]? = some q) : Nat.nth p t = q := by
  induction bound with
  | zero => cases h
  | succ bound ih =>
    rw [List.range_succ, List.filter_append] at h
    rcases lt_or_ge t ((List.range bound).filter p).length with hlt | hge
    · rw [List.getElem?_append_left hlt] at h
      exact ih h
    · -- the number is the one gone through last
      rw [List.getElem?_append_right hge] at h
      have hmem := List.mem_of_getElem? h
      obtain ⟨hq, hp⟩ := List.mem_filter.mp hmem
      obtain rfl := List.mem_singleton.mp hq
      have hcount : Nat.count p q = ((List.range q).filter p).length := by
        rw [Nat.count, List.countP_eq_length_filter]
      have hlength : t - ((List.range q).filter p).length < 1 :=
        (List.getElem?_eq_some_iff.mp h).1.trans_le (List.length_filter_le ..)
      have ht : t = Nat.count p q := by omega
      rw [ht]
      exact Nat.nth_count (of_decide_eq_true hp)

/-- Trial division by the numbers below eighteen. -/
theorem prime_iff_of_lt {p : ℕ} (h : p < 324) :
    p.Prime ↔ 2 ≤ p ∧ ∀ m ∈ List.range 18, ¬ (2 ≤ m ∧ m < p ∧ m ∣ p) := by
  constructor
  · intro hp
    refine ⟨hp.two_le, fun m _ ⟨htwo, hlt, hdvd⟩ => ?_⟩
    rcases hp.eq_one_or_self_of_dvd m hdvd with rfl | rfl <;> omega
  · rintro ⟨htwo, hdivision⟩
    refine Nat.prime_def_le_sqrt.mpr ⟨htwo, fun m hm hsqrt hdvd => hdivision m ?_ ⟨hm, ?_, hdvd⟩⟩
    · exact List.mem_range.mpr (hsqrt.trans_lt (Nat.sqrt_lt.mpr h))
    · exact hsqrt.trans_lt (Nat.sqrt_lt_self htwo)

/-- The first sixty-four prime numbers. -/
def firstPrimes : List ℕ :=
  (List.range 312).filter fun p => decide (2 ≤ p ∧ ∀ m ∈ List.range 18, ¬ (2 ≤ m ∧ m < p ∧ m ∣ p))

theorem nth_prime {t : ℕ} (h : t < firstPrimes.length) :
    Nat.nth Nat.Prime t = firstPrimes.getD t 0 := by
  have hprimes : (List.range 312).filter Nat.Prime = firstPrimes := by
    refine List.filter_congr fun p hp => decide_eq_decide.mpr (prime_iff_of_lt ?_)
    have := List.mem_range.mp hp
    omega
  refine nth_eq_of_getElem? 312 ?_
  rw [hprimes, List.getD_eq_getElem _ _ h]
  exact List.getElem?_eq_getElem h

/-! ## Bits of numbers -/

@[simp] theorem length_natBits (width n : ℕ) : (natBits width n).length = width := by
  induction width generalizing n with
  | zero => rfl
  | succ width ih => rw [natBits, List.length_append, ih, List.length_singleton]

theorem natBits_add (high low n : ℕ) :
    natBits (high + low) n = natBits high (n / 2 ^ low) ++ natBits low n := by
  induction low generalizing n with
  | zero => rw [Nat.add_zero, pow_zero, Nat.div_one, natBits, List.append_nil]
  | succ low ih =>
    rw [← Nat.add_assoc, natBits, ih, natBits, Nat.div_div_eq_div_mul, ← pow_succ',
      List.append_assoc]

/-- Higher bits do not matter. -/
theorem natBits_mod (width n : ℕ) : natBits width (n % 2 ^ width) = natBits width n := by
  induction width generalizing n with
  | zero => rfl
  | succ width ih =>
    have hhigh : n % 2 ^ (width + 1) / 2 = n / 2 % 2 ^ width := by
      rw [pow_succ', Nat.mod_mul_right_div_self]
    have hlow : (n % 2 ^ (width + 1)).testBit 0 = n.testBit 0 := by
      rw [Nat.testBit_mod_two_pow, decide_eq_true (Nat.succ_pos width), Bool.true_and]
    rw [natBits, natBits, hhigh, ih, hlow]

theorem ofBits_append (xs ys : List Bool) :
    ofBits (xs ++ ys) = ofBits xs * 2 ^ ys.length + ofBits ys := by
  induction ys using List.reverseRecOn with
  | nil =>
    rw [List.append_nil, List.length_nil, pow_zero, Nat.mul_one]
    rfl
  | append_singleton ys y ih =>
    have hstep (l : List Bool) : ofBits (l ++ [y]) = 2 * ofBits l + y.toNat := List.foldl_concat ..
    rw [← List.append_assoc, hstep, hstep, ih, List.length_append, List.length_singleton, pow_succ]
    ring

theorem ofBits_natBits (width n : ℕ) : ofBits (natBits width n) = n % 2 ^ width := by
  induction width generalizing n with
  | zero => rw [pow_zero, Nat.mod_one]; rfl
  | succ width ih =>
    rw [natBits, ofBits_append, ih, List.length_singleton, pow_one, pow_succ', Nat.mod_mul,
      Nat.testBit_zero, Nat.add_comm, Nat.mul_comm]
    congr 1
    rcases Nat.mod_two_eq_zero_or_one n with h | h <;> rw [h] <;> rfl

/-! ## Bytes -/

/-- The bits of a byte. -/
def byteBits (byte : UInt8) : List Bool := natBits 8 byte.toNat

/-- The bits of a list of bytes. -/
def bits (bytes : List UInt8) : List Bool := bytes.flatMap byteBits

/-- The low bytes of a number, most significant first. -/
def bigEndian : ℕ → ℕ → List UInt8
  | 0, _ => []
  | count + 1, n => bigEndian count (n / 256) ++ [UInt8.ofNat n]

theorem bigEndian_eq_map (count n : ℕ) : bigEndian count n =
    (List.range count).map fun i => UInt8.ofNat (n / 2 ^ (8 * (count - 1 - i))) := by
  induction count generalizing n with
  | zero => rfl
  | succ count ih =>
    rw [bigEndian, ih, List.range_succ, List.map_append, List.map_singleton, Nat.add_sub_cancel,
      Nat.sub_self, Nat.mul_zero, pow_zero, Nat.div_one]
    refine congrArg (· ++ _) (List.map_congr_left fun i hi => ?_)
    have hlt := List.mem_range.mp hi
    have hexponent : 8 * (count - i) = 8 + 8 * (count - 1 - i) := by omega
    rw [Nat.div_div_eq_div_mul, hexponent, pow_add]
    rfl

theorem length_byteBits (byte : UInt8) : (byteBits byte).length = 8 := length_natBits _ _

theorem length_bits (bytes : List UInt8) : (bits bytes).length = 8 * bytes.length :=
  length_flatMap_spell length_byteBits bytes

theorem bits_append (xs ys : List UInt8) : bits (xs ++ ys) = bits xs ++ bits ys :=
  List.flatMap_append

theorem bits_bigEndian (count n : ℕ) : bits (bigEndian count n) = natBits (8 * count) n := by
  induction count generalizing n with
  | zero => rfl
  | succ count ih =>
    have hlow : bits [UInt8.ofNat n] = natBits 8 n := by
      change natBits 8 (UInt8.ofNat n).toNat ++ [] = _
      rw [List.append_nil, UInt8.toNat_ofNat', natBits_mod]
    rw [bigEndian, bits_append, ih, hlow, Nat.mul_succ, natBits_add]
    rfl

theorem bits_replicate_zero (count : ℕ) :
    bits (List.replicate count 0) = List.replicate (8 * count) false := by
  induction count with
  | zero => rfl
  | succ count ih =>
    have hzero : bits [0] = List.replicate 8 false := rfl
    rw [List.replicate_succ', bits_append, ih, hzero, List.replicate_append_replicate, Nat.mul_succ]

/-- The number of zero bytes between the byte behind the message and the length. -/
def zeroBytes (length : ℕ) : ℕ := (119 - length % 64) % 64

/-- A message of bytes with its padding. -/
def padBytes (message : List UInt8) : List UInt8 :=
  message ++ 0x80 :: (List.replicate (zeroBytes message.length) 0 ++
    bigEndian 8 (8 * message.length))

/-- **The padding of a message of bytes.** -/
theorem pad_bits (message : List UInt8) : pad (bits message) = bits (padBytes message) := by
  have hzeros : paddingZeros (8 * message.length) = 7 + 8 * zeroBytes message.length := by
    unfold paddingZeros zeroBytes
    omega
  have hone (rest : List UInt8) :
      bits (0x80 :: rest) = true :: (List.replicate 7 false ++ bits rest) := rfl
  unfold pad padBytes
  rw [length_bits, hzeros, ← List.replicate_append_replicate, bits_append, hone, bits_append,
    bits_replicate_zero, bits_bigEndian, List.append_assoc]

/-- The number that four bytes spell. -/
theorem ofBits_bits (b₀ b₁ b₂ b₃ : UInt8) : ofBits (bits [b₀, b₁, b₂, b₃]) =
    ((b₀.toNat * 2 ^ 8 + b₁.toNat) * 2 ^ 8 + b₂.toNat) * 2 ^ 8 + b₃.toNat := by
  have hbyte (b : UInt8) : ofBits (byteBits b) = b.toNat := by
    rw [byteBits, ofBits_natBits, Nat.mod_eq_of_lt b.toNat_lt]
  have hbits : bits [b₀, b₁, b₂, b₃] =
      ((byteBits b₀ ++ byteBits b₁) ++ byteBits b₂) ++ byteBits b₃ := by
    simp [bits]
  rw [hbits, ofBits_append, ofBits_append, ofBits_append, hbyte, hbyte, hbyte, hbyte,
    length_byteBits, length_byteBits, length_byteBits]

/-- The bytes of a digest. -/
def State.bytes (s : State) : List UInt8 :=
  [s.a, s.b, s.c, s.d, s.e, s.f, s.g, s.h].flatMap fun w => bigEndian 4 w.toNat

theorem bits_stateBytes (s : State) : bits s.bytes = s.bits := by
  unfold State.bytes State.bits bits
  rw [List.flatMap_assoc]
  refine List.flatMap_congr fun w _ => ?_
  exact bits_bigEndian 4 w.toNat

/-- The digest of a message of bytes, block by block. -/
theorem sha256_bits (message : List UInt8) : sha256 (bits message) = bits
    (foldBlocks 64 (fun s block => compress s (bits block)) initialHash
      (padBytes message)).bytes := by
  rw [bits_stateBytes, sha256, pad_bits]
  exact congrArg State.bits
    (foldBlocks_flatMap (n := 64) length_byteBits (by decide) initialHash (padBytes message))

end Sha2
