import PathPlanner.Core.Identity
import PathPlanner.Library.Sha2

/-!
# The hash

The digest is computed from a stream: bytes are collected in a buffer of one block, whole blocks are
transformed as they come, and `Finish` appends the padding through `Update` itself.

## Main definitions

* `transform`: `Sha256::Transform`
* `Sha256`: the state of a stream
* `Sha256.update`, `Sha256.finish`: the operations
* `Sha256.HasRead`: what a stream holds after some bytes

## Main results

* `transform_eq`: a block is transformed as the standard has it
* `Sha256.HasRead.update`: what a stream holds is found from the bytes alone
* `Sha256.finish_updates`: **every division of a message into chunks has the digest of the message**
-/

namespace PathPlanner

open Sha2 BlockFold

/-! ## Blocks -/

/-- `kRoundConstants`. -/
def roundConstants : List (BitVec 32) :=
  [0x428a2f98, 0x71374491, 0xb5c0fbcf, 0xe9b5dba5, 0x3956c25b, 0x59f111f1, 0x923f82a4, 0xab1c5ed5,
    0xd807aa98, 0x12835b01, 0x243185be, 0x550c7dc3, 0x72be5d74, 0x80deb1fe, 0x9bdc06a7, 0xc19bf174,
    0xe49b69c1, 0xefbe4786, 0x0fc19dc6, 0x240ca1cc, 0x2de92c6f, 0x4a7484aa, 0x5cb0a9dc, 0x76f988da,
    0x983e5152, 0xa831c66d, 0xb00327c8, 0xbf597fc7, 0xc6e00bf3, 0xd5a79147, 0x06ca6351, 0x14292967,
    0x27b70a85, 0x2e1b2138, 0x4d2c6dfc, 0x53380d13, 0x650a7354, 0x766a0abb, 0x81c2c92e, 0x92722c85,
    0xa2bfe8a1, 0xa81a664b, 0xc24b8b70, 0xc76c51a3, 0xd192e819, 0xd6990624, 0xf40e3585, 0x106aa070,
    0x19a4c116, 0x1e376c08, 0x2748774c, 0x34b0bcb5, 0x391c0cb3, 0x4ed8aa4a, 0x5b9cca4f, 0x682e6ff3,
    0x748f82ee, 0x78a5636f, 0x84c87814, 0x8cc70208, 0x90befffa, 0xa4506ceb, 0xbef9a3f7, 0xc67178f2]

/-- `kInitialState`. -/
def initialState : Vector (BitVec 32) 8 :=
  #v[0x6a09e667, 0xbb67ae85, 0x3c6ef372, 0xa54ff53a, 0x510e527f, 0x9b05688c, 0x1f83d9ab, 0x5be0cd19]

/-- `RotateRight`. -/
def rotateRight (value : BitVec 32) (bits : ℕ) : BitVec 32 :=
  (value >>> bits) ||| (value <<< (32 - bits))

/-- The first loop of `Transform`: the words of the block. -/
def loadSchedule (block : List UInt8) (schedule : List (BitVec 32)) : List (BitVec 32) :=
  let byte (i : ℕ) : BitVec 32 := (block.getD i 0).toBitVec.setWidth 32
  (List.range' 0 16).foldl (fun schedule i => schedule.set i
    ((byte (i * 4) <<< 24) ||| (byte (i * 4 + 1) <<< 16) ||| (byte (i * 4 + 2) <<< 8) |||
      byte (i * 4 + 3))) schedule

/-- The second loop: the other words of the schedule. -/
def expandSchedule (schedule : List (BitVec 32)) : List (BitVec 32) :=
  (List.range' 16 48).foldl (fun schedule i =>
    let word (j : ℕ) : BitVec 32 := schedule.getD j 0
    let s0 := rotateRight (word (i - 15)) 7 ^^^ rotateRight (word (i - 15)) 18 ^^^
      (word (i - 15) >>> 3)
    let s1 := rotateRight (word (i - 2)) 17 ^^^ rotateRight (word (i - 2)) 19 ^^^
      (word (i - 2) >>> 10)
    schedule.set i (word (i - 16) + s0 + word (i - 7) + s1)) schedule

/-- The working variables of `Transform`. -/
structure WorkingVariables where
  a : BitVec 32
  b : BitVec 32
  c : BitVec 32
  d : BitVec 32
  e : BitVec 32
  f : BitVec 32
  g : BitVec 32
  h : BitVec 32

/-- The working variables before the rounds. -/
def workingVariables (state : Vector (BitVec 32) 8) : WorkingVariables where
  a := state[0]
  b := state[1]
  c := state[2]
  d := state[3]
  e := state[4]
  f := state[5]
  g := state[6]
  h := state[7]

/-- The working variables as the standard has them. -/
def WorkingVariables.toState (v : WorkingVariables) : Sha2.State :=
  ⟨v.a, v.b, v.c, v.d, v.e, v.f, v.g, v.h⟩

/-- The body of the third loop. -/
def WorkingVariables.turn (v : WorkingVariables) (constant scheduled : BitVec 32) :
    WorkingVariables :=
  let sigma1 := rotateRight v.e 6 ^^^ rotateRight v.e 11 ^^^ rotateRight v.e 25
  let choice := (v.e &&& v.f) ^^^ (~~~v.e &&& v.g)
  let temp1 := v.h + sigma1 + choice + constant + scheduled
  let sigma0 := rotateRight v.a 2 ^^^ rotateRight v.a 13 ^^^ rotateRight v.a 22
  let majority := (v.a &&& v.b) ^^^ (v.a &&& v.c) ^^^ (v.b &&& v.c)
  let temp2 := sigma0 + majority
  { h := v.g
    g := v.f
    f := v.e
    e := v.d + temp1
    d := v.c
    c := v.b
    b := v.a
    a := temp1 + temp2 }

/-- `Sha256::Transform`: the block is the 64 bytes at the head of the list. -/
def transform (state : Vector (BitVec 32) 8) (block : List UInt8) : Vector (BitVec 32) 8 :=
  let schedule := expandSchedule (loadSchedule block (List.replicate 64 0))
  let v := (List.range 64).foldl (fun v i => v.turn (roundConstants.getD i 0) (schedule.getD i 0))
    (workingVariables state)
  #v[state[0] + v.a, state[1] + v.b, state[2] + v.c, state[3] + v.d, state[4] + v.e,
    state[5] + v.f, state[6] + v.g, state[7] + v.h]

/-! ## The stream -/

/-- `Sha256`. Fewer bytes than a block are buffered between the calls. -/
structure Sha256 where
  state : Vector (BitVec 32) 8 := initialState
  buffer : Vector UInt8 64 := .replicate 64 0
  totalBytes : BitVec 64 := 0
  buffered : ℕ := 0
  buffered_lt : buffered < 64 := by decide

/-- The loop that tops the buffer up: the buffer, the number of bytes in it, and the bytes of the data
that are left. -/
def fillBuffer (buffer : Vector UInt8 64) (buffered : ℕ) :
    List UInt8 → Vector UInt8 64 × ℕ × List UInt8
  | [] => (buffer, buffered, [])
  | byte :: data =>
    if buffered < 64 then fillBuffer (buffer.setIfInBounds buffered byte) (buffered + 1) data
    else (buffer, buffered, byte :: data)

/-- The loop over the whole blocks of the data. -/
def transformBlocks (state : Vector (BitVec 32) 8) (data : List UInt8) :
    Vector (BitVec 32) 8 × List UInt8 :=
  if data.length ≥ 64 then transformBlocks (transform state data) (data.drop 64) else (state, data)
termination_by data.length
decreasing_by rw [List.length_drop]; omega

/-- The loop that keeps the remainder. -/
def storeRemainder (buffer : Vector UInt8 64) (buffered : ℕ) : List UInt8 → Vector UInt8 64 × ℕ
  | [] => (buffer, buffered)
  | byte :: data => storeRemainder (buffer.setIfInBounds buffered byte) (buffered + 1) data

namespace Sha256

/-- The first phase of `Update`. -/
def topUp (h : Sha256) (data : List UInt8) :
    Vector (BitVec 32) 8 × Vector UInt8 64 × ℕ × List UInt8 :=
  if h.buffered > 0 then
    let (buffer, buffered, data) := fillBuffer h.buffer h.buffered data
    if buffered = 64 then (transform h.state buffer.toList, buffer, 0, data)
    else (h.state, buffer, buffered, data)
  else (h.state, h.buffer, h.buffered, data)

/-- The three phases. -/
def absorb (h : Sha256) (data : List UInt8) : Vector (BitVec 32) 8 × Vector UInt8 64 × ℕ :=
  let (state, buffer, buffered, data) := h.topUp data
  let (state, data) := transformBlocks state data
  let (buffer, buffered) := storeRemainder buffer buffered data
  (state, buffer, buffered)

/-! ## The buffer -/

variable {buffer : Vector UInt8 64} {buffered : ℕ} {data : List UInt8} {h : Sha256}

/-- A byte is written behind the buffered ones. -/
theorem take_setIfInBounds (hroom : buffered < 64) (byte : UInt8) :
    (buffer.setIfInBounds buffered byte).toList.take (buffered + 1) =
      buffer.toList.take buffered ++ [byte] := by
  have hlength : buffered < (buffer.toList.set buffered byte).length := by
    rw [List.length_set, Vector.length_toList]
    exact hroom
  rw [Vector.toList_setIfInBounds, List.take_succ_eq_append_getElem hlength, List.getElem_set_self,
    List.take_set_of_le le_rfl]

/-- The data is taken from as long as there is room. -/
theorem fillBuffer_spec (buffer : Vector UInt8 64) (hroom : buffered ≤ 64) (data : List UInt8) :
    ∃ taken, data = taken ++ (fillBuffer buffer buffered data).2.2 ∧
      (fillBuffer buffer buffered data).2.1 = buffered + taken.length ∧
      buffered + taken.length ≤ 64 ∧
      (buffered + taken.length < 64 → (fillBuffer buffer buffered data).2.2 = []) ∧
      (fillBuffer buffer buffered data).1.toList.take (buffered + taken.length) =
        buffer.toList.take buffered ++ taken := by
  induction data generalizing buffer buffered with
  | nil => exact ⟨[], rfl, rfl, hroom, fun _ => rfl, (List.append_nil _).symm⟩
  | cons byte data ih =>
    rw [fillBuffer]
    split_ifs with hlt
    · obtain ⟨taken, hdata, hcount, hle, hempty, hbuffer⟩ :=
        ih (buffer.setIfInBounds buffered byte) (Nat.succ_le_of_lt hlt)
      have hlength : buffered + (byte :: taken).length = buffered + 1 + taken.length := by
        rw [List.length_cons]
        omega
      rw [take_setIfInBounds hlt, List.append_assoc] at hbuffer
      refine ⟨byte :: taken, congrArg _ hdata, ?_⟩
      rw [hlength]
      exact ⟨hcount, hle, hempty, hbuffer⟩
    · refine ⟨[], rfl, rfl, hroom, fun hlt' => absurd hlt' hlt, (List.append_nil _).symm⟩

/-- A remainder for which there is room is taken whole. -/
theorem fillBuffer_eq_storeRemainder (hroom : buffered + data.length ≤ 64) :
    fillBuffer buffer buffered data =
      ((storeRemainder buffer buffered data).1, (storeRemainder buffer buffered data).2, []) := by
  induction data generalizing buffer buffered with
  | nil => rfl
  | cons byte data ih =>
    rw [List.length_cons] at hroom
    rw [fillBuffer, if_pos (by omega), storeRemainder]
    exact ih (by omega)

theorem storeRemainder_spec (buffer : Vector UInt8 64) (hroom : buffered + data.length ≤ 64) :
    (storeRemainder buffer buffered data).2 = buffered + data.length ∧
      (storeRemainder buffer buffered data).1.toList.take (buffered + data.length) =
        buffer.toList.take buffered ++ data := by
  obtain ⟨taken, hdata, hcount, -, -, hbuffer⟩ :=
    fillBuffer_spec buffer (show buffered ≤ 64 by omega) data
  rw [fillBuffer_eq_storeRemainder hroom] at hdata hcount hbuffer
  rw [List.append_nil] at hdata
  subst hdata
  exact ⟨hcount, hbuffer⟩

/-- What the first phase does: nothing, when no bytes are buffered; it completes a block; or the data
does not complete one. -/
inductive TopUp (h : Sha256) (data : List UInt8) :
    Vector (BitVec 32) 8 × Vector UInt8 64 × ℕ × List UInt8 → Prop
  | empty (hzero : h.buffered = 0) : TopUp h data (h.state, h.buffer, 0, data)
  | block (buffer : Vector UInt8 64) (taken left : List UInt8) (hdata : data = taken ++ left)
      (hlength : h.buffered + taken.length = 64)
      (hbuffer : buffer.toList = h.buffer.toList.take h.buffered ++ taken) :
      TopUp h data (transform h.state buffer.toList, buffer, 0, left)
  | short (buffer : Vector UInt8 64) (hlength : h.buffered + data.length < 64)
      (hbuffer : buffer.toList.take (h.buffered + data.length) =
        h.buffer.toList.take h.buffered ++ data) :
      TopUp h data (h.state, buffer, h.buffered + data.length, [])

theorem topUp_cases (h : Sha256) (data : List UInt8) : TopUp h data (h.topUp data) := by
  unfold topUp
  split_ifs with hpos
  · obtain ⟨taken, hdata, hcount, hle, hempty, hbuffer⟩ :=
      fillBuffer_spec h.buffer h.buffered_lt.le data
    rcases hfill : fillBuffer h.buffer h.buffered data with ⟨buffer, buffered, left⟩
    rw [hfill] at hdata hcount hempty hbuffer
    dsimp only at hdata hcount hempty hbuffer ⊢
    subst hcount
    split_ifs with hfull
    · refine .block buffer taken left hdata hfull ?_
      rw [← hbuffer, hfull]
      exact (List.take_of_length_le (by rw [Vector.length_toList])).symm
    · have hlt : h.buffered + taken.length < 64 := by omega
      obtain rfl := hempty hlt
      rw [List.append_nil] at hdata
      subst hdata
      exact .short buffer hlt hbuffer
  · have hzero : h.buffered = 0 := by omega
    rw [hzero]
    exact .empty hzero

theorem transformBlocks_of_length_lt {state : Vector (BitVec 32) 8} (hlt : data.length < 64) :
    transformBlocks state data = (state, data) := by
  rw [transformBlocks, if_neg (by omega)]

theorem length_transformBlocks (state : Vector (BitVec 32) 8) (data : List UInt8) :
    (transformBlocks state data).2.length = data.length % 64 := by
  induction state, data using transformBlocks.induct with
  | case1 state data hge ih =>
    rw [transformBlocks, if_pos hge, ih, List.length_drop]
    omega
  | case2 state data hlt =>
    rw [transformBlocks, if_neg hlt]
    change data.length = _
    omega

theorem absorb_buffered (h : Sha256) (data : List UInt8) :
    (h.absorb data).2.2 = (h.buffered + data.length) % 64 := by
  unfold absorb
  have hcases := h.topUp_cases data
  generalize h.topUp data = topped at hcases ⊢
  obtain ⟨state, buffer, buffered, left⟩ := topped
  have hleft := length_transformBlocks state left
  have hstore (hroom : buffered + (transformBlocks state left).2.length ≤ 64) :=
    (storeRemainder_spec buffer hroom).1
  dsimp only
  cases hcases with
  | empty hzero =>
    rw [hstore (by omega), hleft, hzero]
    omega
  | block _ taken _ hdata hlength =>
    rw [hstore (by omega), hleft, hdata, List.length_append]
    omega
  | short _ hlength =>
    rw [List.length_nil] at hleft
    rw [hstore (by omega), hleft]
    omega

/-! ## The operations -/

/-- `Sha256::Update`. -/
def update (h : Sha256) (data : List UInt8) : Sha256 where
  state := (h.absorb data).1
  buffer := (h.absorb data).2.1
  totalBytes := h.totalBytes + .ofNat 64 data.length
  buffered := (h.absorb data).2.2
  buffered_lt := by
    rw [absorb_buffered]
    exact Nat.mod_lt _ (by decide)

/-- The loop of `Finish`: zeros, up to the length. -/
def padZeros (h : Sha256) : Sha256 :=
  if h.buffered ≠ 56 then (h.update [0]).padZeros else h
termination_by (120 - h.buffered) % 64
decreasing_by
  have hlt := h.buffered_lt
  have hnext : (h.update [0]).buffered = (h.buffered + 1) % 64 := h.absorb_buffered [0]
  rw [hnext]
  omega

/-- The bytes of the length. -/
def lengthBytes (bitLength : BitVec 64) : List UInt8 :=
  (List.range 8).map fun i =>
    .ofBitVec (((bitLength >>> (8 * (7 - i))) &&& 0xFF#64).setWidth 8)

/-- The bytes of the digest. -/
def digestBytes (state : Vector (BitVec 32) 8) : Vector UInt8 32 :=
  let byte (word : BitVec 32) : UInt8 := .ofBitVec ((word &&& 0xFF#32).setWidth 8)
  (state.map fun word : BitVec 32 =>
    #v[byte (word >>> 24), byte (word >>> 16), byte (word >>> 8), byte word]).flatten

/-- `Sha256::Finish`. -/
def finish (h : Sha256) : Sha256Digest :=
  let bitLength := h.totalBytes * 8
  ⟨digestBytes (((h.update [0x80]).padZeros.update (lengthBytes bitLength)).state)⟩

/-- `Sha256::Hash`. -/
def hash (data : List UInt8) : Sha256Digest := (({} : Sha256).update data).finish

end Sha256

/-! ## The constants -/

/-- The first table is that of the standard. -/
theorem roundConstants_eq {t : ℕ} (h : t < 64) : roundConstants.getD t 0 = constant t := by
  have hlength : firstPrimes.length = 64 := by decide +kernel
  have htable : ∀ t < 64, roundConstants.getD t 0 = rootFraction 3 (firstPrimes.getD t 0) := by
    decide +kernel
  rw [constant, nth_prime (hlength ▸ h)]
  exact htable t h

/-- And so is the second one. -/
theorem initialState_eq {i : ℕ} (h : i < 8) : initialState.toList.getD i 0 = initialWord i := by
  have hlength : 8 ≤ firstPrimes.length := by decide +kernel
  have htable : ∀ i < 8, initialState.toList.getD i 0 = rootFraction 2 (firstPrimes.getD i 0) := by
    decide +kernel
  rw [initialWord, nth_prime (h.trans_le hlength)]
  exact htable i h

theorem workingVariables_initialState : (workingVariables initialState).toState = initialHash := by
  apply Sha2.State.ext
  · exact initialState_eq (i := 0) (by decide)
  · exact initialState_eq (i := 1) (by decide)
  · exact initialState_eq (i := 2) (by decide)
  · exact initialState_eq (i := 3) (by decide)
  · exact initialState_eq (i := 4) (by decide)
  · exact initialState_eq (i := 5) (by decide)
  · exact initialState_eq (i := 6) (by decide)
  · exact initialState_eq (i := 7) (by decide)

/-! ## One block -/

theorem rotateRight_eq (value : BitVec 32) {count : ℕ} (h : count < 32) :
    rotateRight value count = value.rotateRight count := by
  rw [rotateRight, BitVec.rotateRight_def, Nat.mod_eq_of_lt h]

/-- The word of four bytes. -/
theorem word_bits (b₀ b₁ b₂ b₃ : UInt8) : word (bits [b₀, b₁, b₂, b₃]) =
    ((b₀.toBitVec.setWidth 32 <<< 24) ||| (b₁.toBitVec.setWidth 32 <<< 16) |||
      (b₂.toBitVec.setWidth 32 <<< 8) ||| b₃.toBitVec.setWidth 32) := by
  have h₀ := b₀.toNat_lt
  have h₁ := b₁.toNat_lt
  have h₂ := b₂.toNat_lt
  have h₃ := b₃.toNat_lt
  have hshift (b : UInt8) {width : ℕ} (h : b.toNat <<< width < 2 ^ 32) :
      (b.toBitVec.setWidth 32 <<< width).toNat = b.toNat <<< width := by
    have hb := b.toNat_lt
    rw [BitVec.toNat_shiftLeft, BitVec.toNat_setWidth, UInt8.toNat_toBitVec,
      Nat.mod_eq_of_lt (show b.toNat < 2 ^ 32 by omega), Nat.mod_eq_of_lt h]
  have hor (high width : ℕ) {low : ℕ} (h : low < 2 ^ width) :
      high <<< width ||| low = high * 2 ^ width + low := by
    rw [← Nat.shiftLeft_add_eq_or_of_lt h, Nat.shiftLeft_eq]
  apply BitVec.eq_of_toNat_eq
  rw [word, ofBits_bits, BitVec.toNat_ofNat, BitVec.toNat_or, BitVec.toNat_or, BitVec.toNat_or,
    hshift b₀ (by rw [Nat.shiftLeft_eq]; omega), hshift b₁ (by rw [Nat.shiftLeft_eq]; omega),
    hshift b₂ (by rw [Nat.shiftLeft_eq]; omega), BitVec.toNat_setWidth, UInt8.toNat_toBitVec,
    Nat.mod_eq_of_lt (show b₃.toNat < 2 ^ 32 by omega), Nat.or_assoc, Nat.or_assoc,
    hor _ 8 (by omega), hor _ 16 (by omega), hor _ 24 (by omega), Nat.mod_eq_of_lt (by omega)]
  ring

/-- Four entries of a list. -/
theorem block_four {data : List UInt8} {i : ℕ} (h : i * 4 + 4 ≤ data.length) :
    block 4 data i = [data.getD (i * 4) 0, data.getD (i * 4 + 1) 0, data.getD (i * 4 + 2) 0,
      data.getD (i * 4 + 3) 0] := by
  rw [block, Nat.mul_comm]
  apply List.ext_getElem
  · rw [List.length_take_of_le (by rw [List.length_drop]; omega)]
    rfl
  · intro j hj _
    rw [List.getElem_take, List.getElem_drop]
    have hlt : j < 4 := (List.length_take_le ..).trans_lt' hj
    interval_cases j
    all_goals exact (List.getD_eq_getElem data 0 (by omega)).symm

/-- A loop that sets one entry after the other, each from the entries before it. -/
theorem getD_foldl_set {entry : List (BitVec 32) → ℕ → BitVec 32} {w : ℕ → BitVec 32}
    {start count : ℕ} {l : List (BitVec 32)} (hroom : start + count ≤ l.length)
    (hentry : ∀ (l' : List (BitVec 32)) (i : ℕ), start ≤ i → i < start + count →
      (∀ j < i, l'.getD j 0 = w j) → entry l' i = w i)
    (hstart : ∀ j < start, l.getD j 0 = w j) :
    ((List.range' start count).foldl (fun l i => l.set i (entry l i)) l).length = l.length ∧
      ∀ j < start + count,
        ((List.range' start count).foldl (fun l i => l.set i (entry l i)) l).getD j 0 = w j := by
  induction count with
  | zero => exact ⟨rfl, hstart⟩
  | succ count ih =>
    obtain ⟨hlength, hbefore⟩ := ih (by omega) fun l' i hi hlt => hentry l' i hi (by omega)
    rw [List.range'_1_concat, List.foldl_concat, List.length_set]
    refine ⟨hlength, fun j hj => ?_⟩
    rw [List.getD_eq_getElem?_getD, List.getElem?_set]
    split_ifs with heq hlt
    · subst heq
      exact hentry _ _ (by omega) (by omega) hbefore
    · omega
    · rw [← List.getD_eq_getElem?_getD]
      exact hbefore j (by omega)

/-- The schedule of a block is that of the standard. -/
theorem getD_expandSchedule {data : List UInt8} (h : 64 ≤ data.length) {i : ℕ} (hi : i < 64) :
    (expandSchedule (loadSchedule data (List.replicate 64 0))).getD i 0 =
      schedule (bits (data.take 64)) i := by
  have hdata : (data.take 64).length = 64 := List.length_take_of_le h
  -- the words of the block
  obtain ⟨hlength, hload⟩ := @getD_foldl_set (fun _ i =>
      (((data.getD (i * 4) 0).toBitVec.setWidth 32 <<< 24) |||
        ((data.getD (i * 4 + 1) 0).toBitVec.setWidth 32 <<< 16) |||
        ((data.getD (i * 4 + 2) 0).toBitVec.setWidth 32 <<< 8) |||
        (data.getD (i * 4 + 3) 0).toBitVec.setWidth 32))
    (schedule (bits (data.take 64))) 0 16 (List.replicate 64 0)
    (by rw [List.length_replicate]; decide)
    (fun _ i _ hi _ => by
      have hget {k : ℕ} (hk : k < 64) : (data.take 64).getD k 0 = data.getD k 0 := by
        rw [List.getD_eq_getElem?_getD, List.getElem?_take_of_lt hk, List.getD_eq_getElem?_getD]
      rw [schedule, if_pos (by omega)]
      have hblock : block 32 (bits (data.take 64)) i = bits (block 4 (data.take 64) i) :=
        block_flatMap_spell (k := 8) (n := 4) length_byteBits (data.take 64) i
      rw [hblock, block_four (by omega), word_bits, hget (by omega), hget (by omega),
        hget (by omega), hget (by omega)])
    (fun j hj => absurd hj (Nat.not_lt_zero j))
  -- the words after them
  refine (@getD_foldl_set _ (schedule (bits (data.take 64))) 16 48 _
    (hlength.trans List.length_replicate).ge (fun l i hstart _ hbefore => ?_) hload).2 i hi
  dsimp only
  rw [schedule, if_neg (by omega), hbefore _ (by omega), hbefore _ (by omega),
    hbefore _ (by omega), hbefore _ (by omega)]
  simp only [rotateRight_eq _ (show 7 < 32 by decide), rotateRight_eq _ (show 18 < 32 by decide),
    rotateRight_eq _ (show 17 < 32 by decide), rotateRight_eq _ (show 19 < 32 by decide)]
  unfold smallSigma0 smallSigma1
  ac_rfl

/-- A turn of the loop is a round. -/
theorem toState_turn (v : WorkingVariables) (constant scheduled : BitVec 32) :
    (v.turn constant scheduled).toState = round constant scheduled v.toState := by
  unfold WorkingVariables.turn
  simp only [rotateRight_eq _ (show 6 < 32 by decide), rotateRight_eq _ (show 11 < 32 by decide),
    rotateRight_eq _ (show 25 < 32 by decide), rotateRight_eq _ (show 2 < 32 by decide),
    rotateRight_eq _ (show 13 < 32 by decide), rotateRight_eq _ (show 22 < 32 by decide)]
  rfl

/-- **A block is transformed as the standard has it.** -/
theorem transform_eq (state : Vector (BitVec 32) 8) {data : List UInt8} (h : 64 ≤ data.length) :
    (workingVariables (transform state data)).toState =
      compress (workingVariables state).toState (bits (data.take 64)) := by
  have hloop : ∀ (ts : List ℕ) (v : WorkingVariables), (∀ t ∈ ts, t < 64) →
      (ts.foldl (fun v i => v.turn (roundConstants.getD i 0)
        ((expandSchedule (loadSchedule data (List.replicate 64 0))).getD i 0)) v).toState =
      ts.foldl (fun v t => round (constant t) (schedule (bits (data.take 64)) t) v) v.toState := by
    intro ts
    induction ts with
    | nil => exact fun _ _ => rfl
    | cons t ts ih =>
      intro v hts
      obtain ⟨ht, hrest⟩ := List.forall_mem_cons.mp hts
      rw [List.foldl_cons, List.foldl_cons, ih _ hrest, toState_turn, roundConstants_eq ht,
        getD_expandSchedule h ht]
  have hrounds := hloop (List.range 64) (workingVariables state) fun t ht => List.mem_range.mp ht
  unfold compress
  rw [← hrounds]
  rfl

namespace Sha256

variable {h : Sha256} {message bytes data : List UInt8}

/-! ## What a stream holds -/

/-- A block of bytes, compressed. -/
noncomputable def compressBytes (s : Sha2.State) (block : List UInt8) : Sha2.State :=
  compress s (bits block)

/-- The hash value and the buffer after some bytes: the whole blocks are in the one, and the rest is
in the other. -/
structure Holds (state : Vector (BitVec 32) 8) (buffer : Vector UInt8 64) (buffered : ℕ)
    (bytes : List UInt8) : Prop where
  state : (workingVariables state).toState = foldBlocks 64 compressBytes initialHash bytes
  buffer : buffer.toList.take buffered = rest 64 bytes
  buffered : buffered = bytes.length % 64

/-- The stream after some bytes. -/
structure HasRead (h : Sha256) (bytes : List UInt8) : Prop where
  holds : Holds h.state h.buffer h.buffered bytes
  totalBytes : h.totalBytes = .ofNat 64 bytes.length

variable {state : Vector (BitVec 32) 8} {buffer : Vector UInt8 64} {buffered : ℕ}

/-- Bytes that complete a block. -/
theorem Holds.block (hh : Holds state buffer buffered bytes) (hlength : buffered + data.length = 64)
    {full : Vector UInt8 64} (hfull : full.toList = buffer.toList.take buffered ++ data) :
    Holds (transform state full.toList) full 0 (bytes ++ data) := by
  have hbuffered : (rest 64 bytes).length = buffered := by rw [length_rest, hh.buffered]
  obtain ⟨hfold, hrest⟩ := foldBlocks_append_of_rest (f := compressBytes) (s := initialHash)
    (by decide) (hbuffered.symm ▸ hlength)
  have hwhole : full.toList.length = 64 := Vector.length_toList
  refine ⟨?_, ?_, ?_⟩
  · rw [transform_eq state hwhole.ge, List.take_of_length_le hwhole.le, hh.state, hfold, hfull,
      hh.buffer]
    rfl
  · rw [hrest]
    rfl
  · rw [List.length_append]
    have := hh.buffered
    omega

/-- Bytes that do not complete one. -/
theorem Holds.short (hh : Holds state buffer buffered bytes) (hlength : buffered + data.length < 64)
    {buffer' : Vector UInt8 64}
    (hbuffer : buffer'.toList.take (buffered + data.length) = buffer.toList.take buffered ++ data) :
    Holds state buffer' (buffered + data.length) (bytes ++ data) := by
  have hbuffered : (rest 64 bytes).length = buffered := by rw [length_rest, hh.buffered]
  obtain ⟨hfold, hrest⟩ := foldBlocks_append_of_lt (f := compressBytes) (s := initialHash)
    (hbuffered.symm ▸ hlength)
  refine ⟨?_, ?_, ?_⟩
  · rw [hh.state, hfold]
  · rw [hbuffer, hrest, hh.buffer]
  · rw [List.length_append]
    have := hh.buffered
    omega

/-- **The second phase**: whole blocks are transformed where they stand. -/
theorem Holds.wholeBlocks (hh : Holds state buffer 0 bytes) (data : List UInt8) :
    ∃ taken, data = taken ++ (transformBlocks state data).2 ∧
      Holds (transformBlocks state data).1 buffer 0 (bytes ++ taken) := by
  induction state, data using transformBlocks.induct generalizing bytes with
  | case1 state data hge ih =>
    have htake : (data.take 64).length = 64 := List.length_take_of_le hge
    have hempty : (rest 64 bytes) = [] := hh.buffer.symm
    have hblock : (rest 64 bytes).length + (data.take 64).length = 64 := by
      rw [hempty, htake]
      rfl
    obtain ⟨hfold, hrest⟩ := foldBlocks_append_of_rest (f := compressBytes) (s := initialHash)
      (by decide) hblock
    have hnext : Holds (transform state data) buffer 0 (bytes ++ data.take 64) := by
      refine ⟨?_, hrest.symm, ?_⟩
      · rw [transform_eq state hge, hh.state, hfold, hempty]
        rfl
      · have := hh.buffered
        rw [List.length_append, htake]
        omega
    obtain ⟨taken, hdata, hholds⟩ := ih hnext
    rw [transformBlocks, if_pos hge]
    refine ⟨data.take 64 ++ taken, ?_, ?_⟩
    · rw [List.append_assoc, ← hdata, List.take_append_drop]
    · rw [← List.append_assoc]
      exact hholds
  | case2 state data hlt =>
    rw [transformBlocks, if_neg hlt]
    exact ⟨[], rfl, (List.append_nil bytes).symm ▸ hh⟩

/-- **The three phases**: what the stream holds is found from the bytes alone. -/
theorem Holds.absorb (hh : Holds h.state h.buffer h.buffered bytes) (data : List UInt8) :
    Holds (h.absorb data).1 (h.absorb data).2.1 (h.absorb data).2.2 (bytes ++ data) := by
  unfold Sha256.absorb
  have hcases := h.topUp_cases data
  generalize h.topUp data = topped at hcases ⊢
  -- a phase that leaves the buffer empty is followed by the other two
  have hlater {state : Vector (BitVec 32) 8} {buffer : Vector UInt8 64} {before left : List UInt8}
      (hbefore : Holds state buffer 0 before) :
      Holds (transformBlocks state left).1
        (storeRemainder buffer 0 (transformBlocks state left).2).1
        (storeRemainder buffer 0 (transformBlocks state left).2).2
        (before ++ left) := by
    obtain ⟨taken, hdata, hholds⟩ := hbefore.wholeBlocks left
    have hlt : (transformBlocks state left).2.length < 64 := by
      rw [length_transformBlocks]
      exact Nat.mod_lt _ (by decide)
    obtain ⟨hcount, hstored⟩ := storeRemainder_spec buffer
      (show 0 + (transformBlocks state left).2.length ≤ 64 by omega)
    rw [hcount]
    conv => arg 4; rw [hdata, ← List.append_assoc]
    exact hholds.short (by omega) hstored
  cases hcases with
  | empty hzero => exact hlater (hzero ▸ hh)
  | block buffer taken left hdata hlength hbuffer =>
    rw [hdata, ← List.append_assoc]
    exact hlater (hh.block hlength hbuffer)
  | short buffer hlength hbuffer =>
    dsimp only
    rw [transformBlocks_of_length_lt (by decide)]
    exact hh.short hlength hbuffer

theorem hasRead_new : ({} : Sha256).HasRead [] where
  holds := ⟨workingVariables_initialState.trans (foldBlocks_of_length_lt (by decide)).symm, rfl, rfl⟩
  totalBytes := rfl

/-- **What a stream holds after `Update`.** -/
theorem HasRead.update (hh : h.HasRead bytes) (data : List UInt8) :
    (h.update data).HasRead (bytes ++ data) where
  holds := hh.holds.absorb data
  totalBytes := by
    rw [List.length_append, BitVec.ofNat_add, ← hh.totalBytes]
    rfl

/-- And after a sequence of chunks. -/
theorem HasRead.updates (hh : h.HasRead bytes) (chunks : List (List UInt8)) :
    (chunks.foldl Sha256.update h).HasRead (bytes ++ chunks.flatten) := by
  induction chunks generalizing h bytes with
  | nil =>
    rw [List.flatten_nil, List.append_nil]
    exact hh
  | cons chunk chunks ih =>
    rw [List.flatten_cons, ← List.append_assoc]
    exact ih (hh.update chunk)

/-! ## What is appended -/

theorem toList_eight {α : Type*} (v : Vector α 8) :
    v.toList = [v[0], v[1], v[2], v[3], v[4], v[5], v[6], v[7]] := by
  apply List.ext_getElem
  · rw [Vector.length_toList]; rfl
  · intro i hi hi'
    rw [Vector.length_toList] at hi
    interval_cases i <;> rfl

/-- The low byte of a word. -/
theorem low_byte {w : ℕ} (x : BitVec w) (hw : 8 ≤ w) :
    UInt8.ofBitVec ((x &&& BitVec.ofNat w 0xFF).setWidth 8) = .ofNat x.toNat := by
  have hmask : (x &&& BitVec.ofNat w 0xFF).toNat = x.toNat % 2 ^ 8 := by
    have hlt : 0xFF < 2 ^ w := lt_of_lt_of_le (by decide) (Nat.pow_le_pow_right (by decide) hw)
    rw [BitVec.toNat_and, BitVec.toNat_ofNat, Nat.mod_eq_of_lt hlt]
    exact Nat.and_two_pow_sub_one_eq_mod x.toNat 8
  apply UInt8.toNat_inj.mp
  rw [UInt8.toNat_ofBitVec, BitVec.toNat_setWidth, hmask, UInt8.toNat_ofNat', Nat.mod_mod]

theorem lengthBytes_eq (bitLength : BitVec 64) :
    lengthBytes bitLength = bigEndian 8 bitLength.toNat := by
  have hbyte (i : ℕ) : UInt8.ofBitVec (((bitLength >>> i) &&& 0xFF#64).setWidth 8) =
      .ofNat (bitLength.toNat / 2 ^ i) := by
    rw [low_byte _ (by decide), BitVec.toNat_ushiftRight, Nat.shiftRight_eq_div_pow]
  rw [lengthBytes, bigEndian_eq_map]
  exact List.map_congr_left fun i _ => hbyte (8 * (7 - i))

theorem toList_digestBytes (state : Vector (BitVec 32) 8) :
    (digestBytes state).toList = (workingVariables state).toState.bytes := by
  have hbyte (word : BitVec 32) (i : ℕ) :
      UInt8.ofBitVec (((word >>> i) &&& 0xFF#32).setWidth 8) = .ofNat (word.toNat / 2 ^ i) := by
    rw [low_byte _ (by decide), BitVec.toNat_ushiftRight, Nat.shiftRight_eq_div_pow]
  have hflatten : (digestBytes state).toList =
      state.toList.flatMap fun word => bigEndian 4 word.toNat := by
    unfold digestBytes
    obtain ⟨words, hwords⟩ := state
    simp only [Vector.map_mk, Vector.flatten_mk, Vector.toList_mk, Array.toList_flatten,
      Array.toList_map, List.map_map]
    rw [List.flatMap]
    congr 1
    refine List.map_congr_left fun word _ => ?_
    change [UInt8.ofBitVec _, UInt8.ofBitVec _, UInt8.ofBitVec _, UInt8.ofBitVec _] = _
    have hlast : UInt8.ofBitVec ((word &&& 0xFF#32).setWidth 8) = .ofNat (word.toNat / 2 ^ 0) := by
      rw [low_byte _ (by decide), pow_zero, Nat.div_one]
    rw [bigEndian_eq_map, hbyte, hbyte, hbyte, hlast]
    rfl
  rw [hflatten, toList_eight]
  rfl
/-- The zeros reach up to the length. -/
theorem HasRead.padZeros (hh : h.HasRead bytes) : h.padZeros.HasRead
    (bytes ++ List.replicate ((120 - h.buffered) % 64) 0) := by
  induction h using Sha256.padZeros.induct generalizing bytes with
  | case1 h hne ih =>
    rw [Sha256.padZeros, if_pos hne]
    have hnext : (h.update [0]).buffered = (h.buffered + 1) % 64 := h.absorb_buffered [0]
    have hcount : (120 - h.buffered) % 64 = 1 + (120 - (h.update [0]).buffered) % 64 := by
      have hlt := h.buffered_lt
      rw [hnext]
      omega
    rw [hcount, ← List.replicate_append_replicate, ← List.append_assoc]
    exact ih (hh.update [0])
  | case2 h heq =>
    have hfull : h.buffered = 56 := not_not.mp heq
    rw [Sha256.padZeros, if_neg heq, hfull]
    exact (List.append_nil bytes).symm ▸ hh

/-- The digest that `Finish` makes of the bytes. -/
theorem HasRead.finish (hh : h.HasRead bytes) : h.finish.bytes.toList =
    (foldBlocks 64 compressBytes initialHash (bytes ++ 0x80 ::
      (List.replicate (zeroBytes bytes.length) 0 ++
        bigEndian 8 (8 * bytes.length % 2 ^ 64)))).bytes := by
  have hbits : (h.totalBytes * 8).toNat = 8 * bytes.length % 2 ^ 64 := by
    rw [hh.totalBytes, BitVec.toNat_mul, BitVec.toNat_ofNat, Nat.mod_mul_mod, Nat.mul_comm]
    rfl
  have hmarked := hh.update [0x80]
  have hzeros : (120 - (h.update [0x80]).buffered) % 64 = zeroBytes bytes.length := by
    have hbuffered := hmarked.holds.buffered
    rw [List.length_append, List.length_singleton] at hbuffered
    rw [hbuffered, zeroBytes]
    omega
  have hread := hmarked.padZeros.update (lengthBytes (h.totalBytes * 8))
  rw [hzeros, lengthBytes_eq, hbits] at hread
  have hpadded : bytes ++ [0x80] ++ List.replicate (zeroBytes bytes.length) 0 ++
      bigEndian 8 (8 * bytes.length % 2 ^ 64) = bytes ++ 0x80 ::
        (List.replicate (zeroBytes bytes.length) 0 ++ bigEndian 8 (8 * bytes.length % 2 ^ 64)) := by
    simp
  change (digestBytes ((h.update [0x80]).padZeros.update
    (lengthBytes (h.totalBytes * 8))).state).toList = _
  rw [toList_digestBytes, lengthBytes_eq, hbits, hread.holds.state, hpadded]

/-! ## Digests -/

/-- Streams that have read the same bytes finish with the same digest. -/
theorem HasRead.finish_eq {h' : Sha256} (hh : h.HasRead bytes) (hh' : h'.HasRead bytes) :
    h.finish = h'.finish := by
  have hbytes : h.finish.bytes = h'.finish.bytes :=
    Vector.toList_inj.mp (hh.finish.trans hh'.finish.symm)
  exact congrArg Sha256Digest.mk hbytes

/-- The digest of a stream does not depend on how it was divided. -/
theorem finish_eq_hash (chunks : List (List UInt8)) :
    (chunks.foldl Sha256.update {}).finish = hash chunks.flatten :=
  (hasRead_new.updates chunks).finish_eq (hasRead_new.update chunks.flatten)

/-- **Every division of a message into chunks has the digest of the message**, and that is the one of
the standard for a message shorter than the standard allows. -/
theorem finish_updates (hlength : message.length < 2 ^ 61) {chunks : List (List UInt8)}
    (hchunks : chunks.flatten = message) :
    (chunks.foldl Sha256.update {}).finish = hash message ∧
      bits (chunks.foldl Sha256.update {}).finish.bytes.toList = sha256 (bits message) := by
  subst hchunks
  refine ⟨finish_eq_hash chunks, ?_⟩
  have hfinish := (hasRead_new.updates chunks).finish
  rw [List.nil_append, Nat.mod_eq_of_lt (by omega)] at hfinish
  rw [hfinish, sha256_bits]
  rfl

theorem finish_updates_threeChunks :
    (((({} : Sha256).update [0x61]).update []).update [0x62, 0x63]).finish =
        hash [0x61, 0x62, 0x63] ∧
      bits (((({} : Sha256).update [0x61]).update []).update [0x62, 0x63]).finish.bytes.toList =
        sha256 (bits [0x61, 0x62, 0x63]) :=
  @finish_updates [0x61, 0x62, 0x63] (by decide) [[0x61], [], [0x62, 0x63]] rfl

/-- A published vector. -/
example : hexEncode (hash [0x61, 0x62, 0x63]).bytes.toList =
    "ba7816bf8f01cfea414140de5dae2223b00361a396177a9cb410ff61f20015ad" := by decide +kernel

end Sha256

end PathPlanner
