import PathPlanner.Store.Soundness

/-!
# The ceilings of the plan store

The writer bounds the payload and the loader bounds the whole file, both by sixteen times
`max_frame_bytes`. The writer takes the product in 32 bits and the loader in 64. At the largest frame
limit that `ValidateLimits` admits, 256 MiB, the product is 2^32: the writer's ceiling is then zero,
and not even an empty store can be written.

## Main definitions

* `loadCeiling`, `loadPlanStore`, `loadPlanStoreFile`: the loader, on the content of a file and on
  the buffers that its reads deliver
* `KeepsCeilings`: the writer succeeds exactly up to sixteen times the frame limit, and what it
  writes can be loaded

## Main results

* `readStream_eq`, `loadPlanStoreFile_eq`: a file is read exactly up to the ceiling, however the
  reads divide it
* `storePayloadCeiling_eq`: the writer's ceiling under coherent limits
* `encodePlanStore_keepsCeilings_iff`: the two ceilings agree below the largest frame limit
-/

namespace PathPlanner

/-! ## The loader -/

/-- The ceiling of `LoadPlanStore`. The product is taken in the width of sizes, 64 bits. -/
def loadCeiling (limits : ResourceLimits) : ℕ :=
  storeHeaderBytes + storeDigestBytes + limits.maxFrameBytes.toNat * 16

/-- The read loop of `LoadPlanStore` on the buffers that the reads deliver. -/
def readStream (ceiling : ℕ) (image : List UInt8) :
    List (List UInt8) → Except StoreFailure (List UInt8)
  | [] => .ok image
  | buffer :: buffers =>
    if image.length + buffer.length > ceiling then
      .error ⟨.persistenceLimitExceeded, "store image exceeds the configured ceiling"⟩
    else readStream ceiling (image ++ buffer) buffers

/-- `LoadPlanStore`, with the content of the file. -/
def loadPlanStore (sha : List UInt8 → Sha256Digest) (limits : ResourceLimits) (image : List UInt8)
    (out : List StoredPlanRecord) : Option (StoreResult × List StoredPlanRecord) :=
  if storeHeaderBytes + storeDigestBytes + limits.maxFrameBytes.toNat * 16 < image.length then
    some (withOutput out (.error
      ⟨.persistenceLimitExceeded, "store image exceeds the configured ceiling"⟩))
  else decodePlanStore sha limits image out

/-- `LoadPlanStore`, with the buffers that the reads of the file deliver, or none when it cannot be
opened. -/
def loadPlanStoreFile (sha : List UInt8 → Sha256Digest) (path : String) (limits : ResourceLimits)
    (file : Option (List (List UInt8))) (out : List StoredPlanRecord) :
    Option (StoreResult × List StoredPlanRecord) :=
  if path.isEmpty then
    some (withOutput out (.error (persistenceCorrupt "store path is empty")))
  else
    match file with
    | none =>
      some (withOutput out (.error (persistenceCorrupt "store file not found or not readable")))
    | some buffers =>
      match readStream (loadCeiling limits) [] buffers with
      | .error failure => some (withOutput out (.error failure))
      | .ok image => decodePlanStore sha limits image out

/-- **A file is read** exactly up to the ceiling, however the reads divide it. -/
theorem readStream_eq {ceiling : ℕ} {buffers : List (List UInt8)} {image : List UInt8}
    (h : image.length ≤ ceiling) :
    readStream ceiling image buffers =
      if image.length + buffers.flatten.length > ceiling then
        .error ⟨.persistenceLimitExceeded, "store image exceeds the configured ceiling"⟩
      else .ok (image ++ buffers.flatten) := by
  induction buffers generalizing image with
  | nil =>
    rw [readStream, if_neg (by simpa using h)]
    simp
  | cons buffer buffers ih =>
    rw [readStream, List.flatten_cons, List.length_append]
    split_ifs with hbuffer hall
    · rfl
    · omega
    · rw [ih (by rw [List.length_append]; omega), List.length_append, if_pos (by omega)]
    · rw [ih (by rw [List.length_append]; omega), List.length_append, if_neg (by omega),
        List.append_assoc]

/-- The reads may divide the file in any way: only its content matters. -/
theorem loadPlanStoreFile_eq {sha : List UInt8 → Sha256Digest} {path : String}
    {limits : ResourceLimits} {buffers : List (List UInt8)} {out : List StoredPlanRecord}
    (hpath : path.isEmpty = false) :
    loadPlanStoreFile sha path limits (some buffers) out =
      loadPlanStore sha limits buffers.flatten out := by
  rw [loadPlanStoreFile, hpath, loadPlanStore]
  simp only [Bool.false_eq_true, if_false]
  rw [readStream_eq (Nat.zero_le _), List.length_nil, Nat.zero_add]
  have hceiling : (storeHeaderBytes + storeDigestBytes + limits.maxFrameBytes.toNat * 16 <
      buffers.flatten.length) = (buffers.flatten.length > loadCeiling limits) := rfl
  simp only [hceiling]
  split_ifs <;> rfl

/-! ## The writer -/

theorem maxFrameBytes_of_validateLimits {limits : ResourceLimits} (h : validateLimits limits = none) :
    64 ≤ limits.maxFrameBytes.toNat ∧ limits.maxFrameBytes.toNat ≤ 2 ^ 28 := by
  unfold validateLimits at h
  split_ifs at h with _ _ _ hframe
  obtain ⟨hlow, hhigh⟩ := not_or.mp hframe
  constructor
  · exact UInt32.le_iff_toNat_le.mp (UInt32.not_lt.mp hlow)
  · exact UInt32.le_iff_toNat_le.mp (UInt32.not_lt.mp hhigh)

/-- The writer's ceiling is sixteen times the frame limit, except that it is zero at the largest. -/
theorem storePayloadCeiling_eq {limits : ResourceLimits} (h : validateLimits limits = none) :
    storePayloadCeiling limits =
      if limits.maxFrameBytes.toNat < 2 ^ 28 then 16 * limits.maxFrameBytes.toNat else 0 := by
  obtain ⟨-, hle⟩ := maxFrameBytes_of_validateLimits h
  rw [storePayloadCeiling, UInt32.toNat_mul]
  change limits.maxFrameBytes.toNat * 16 % 2 ^ 32 = _
  split_ifs with hlt
  · rw [Nat.mod_eq_of_lt (by omega), Nat.mul_comm]
  · have heq : limits.maxFrameBytes.toNat = 2 ^ 28 := by omega
    rw [heq]
    decide

/-- A payload is never empty: it starts with the publish sequence and the count. -/
theorem storePayload_length_pos (sequence : PlanPublishSequence) (records : List StoredPlanRecord) :
    0 < (storePayload sequence records).length := by
  rw [storePayload, List.length_append, length_littleEndian]
  omega

/-- The writer succeeds exactly when the payload is at most sixteen times the frame limit, reports
the limit otherwise, and what it writes is within the ceiling of the loader. -/
structure KeepsCeilings (sha : List UInt8 → Sha256Digest) (limits : ResourceLimits)
    (sequence : PlanPublishSequence) (records : List StoredPlanRecord) : Prop where
  succeeds : (storePayload sequence records).length ≤ 16 * limits.maxFrameBytes.toNat →
    ∀ out, (encodePlanStore sha records ⟨limits, sequence⟩ out).1.ok = true
  refuses : 16 * limits.maxFrameBytes.toNat < (storePayload sequence records).length →
    ∀ out, (encodePlanStore sha records ⟨limits, sequence⟩ out).1.ok = false ∧
      (encodePlanStore sha records ⟨limits, sequence⟩ out).1.code = .persistenceLimitExceeded
  loadable : ∀ out image, encodePlanStore sha records ⟨limits, sequence⟩ out =
    ({ ok := true }, image) → image.length ≤ loadCeiling limits

/-- **The ceilings of the store** are kept exactly below the largest frame limit, or when the payload
is beyond sixteen times that limit as well: at the limit of 256 MiB the writer refuses every
payload. -/
theorem encodePlanStore_keepsCeilings_iff (sha : List UInt8 → Sha256Digest)
    (limits : ResourceLimits) (sequence : PlanPublishSequence) (records : List StoredPlanRecord)
    (hlimits : validateLimits limits = none)
    (hcount : records.length ≤ limits.maxPersistedPlans.toNat)
    (hwritable : ∀ record ∈ records, record.IsWritable limits) :
    KeepsCeilings sha limits sequence records ↔ limits.maxFrameBytes.toNat < 2 ^ 28 ∨
      16 * limits.maxFrameBytes.toNat < (storePayload sequence records).length := by
  have hencode : encodeImage sha records ⟨limits, sequence⟩ =
      if storePayloadCeiling limits < (storePayload sequence records).length then
        .error ⟨.persistenceLimitExceeded, "store payload exceeded its ceiling"⟩
      else .ok (storeImage sha sequence records) :=
    encodeImage_of_isWritable hlimits hcount hwritable
  have hceiling := storePayloadCeiling_eq hlimits
  constructor
  · intro h
    by_contra hnot
    push Not at hnot
    -- the ceiling has wrapped around to zero
    rw [if_neg hnot.1.not_gt] at hceiling
    rw [hceiling, if_pos (storePayload_length_pos sequence records)] at hencode
    have hok := h.succeeds hnot.2 []
    rw [encodePlanStore, hencode] at hok
    cases hok
  · intro h
    have hdecides : storePayloadCeiling limits < (storePayload sequence records).length ↔
        16 * limits.maxFrameBytes.toNat < (storePayload sequence records).length := by
      rw [hceiling]
      split_ifs with hlt
      · rfl
      · exact iff_of_true (storePayload_length_pos sequence records) (h.resolve_left hlt)
    rw [if_congr hdecides rfl rfl] at hencode
    refine ⟨fun hle out => ?_, fun hlt out => ?_, fun out image himage => ?_⟩
    · rw [encodePlanStore, hencode, if_neg hle.not_gt]
      rfl
    · rw [encodePlanStore, hencode, if_pos hlt]
      exact ⟨rfl, rfl⟩
    · rw [encodePlanStore, hencode] at himage
      split_ifs at himage with hlt
      · cases himage
      · obtain rfl : storeImage sha sequence records = image := congrArg Prod.snd himage
        rw [length_storeImage, loadCeiling]
        omega

/-! ### The largest frame limit -/

/-- The largest frames that the limits admit. -/
def largestFrames : ResourceLimits := { maxFrameBytes := 268435456 }

theorem encodePlanStore_keepsCeilings_iff_selfPath :
    KeepsCeilings flatHash {} (.ofNat 7) [selfPathRecord] :=
  (encodePlanStore_keepsCeilings_iff flatHash {} (.ofNat 7) [selfPathRecord] (by decide) (by decide)
    (List.forall_mem_singleton.mpr ⟨by decide, by decide, rfl, by decide⟩)).mpr
    (Or.inl (by decide))

/-- Under the largest frame limit a store of one small plan is refused. -/
theorem not_keepsCeilings_largestFrames :
    validateLimits largestFrames = none ∧
      [selfPathRecord].length ≤ largestFrames.maxPersistedPlans.toNat ∧
      (∀ record ∈ [selfPathRecord], record.IsWritable largestFrames) ∧
      (storePayload (.ofNat 7) [selfPathRecord]).length ≤ 16 * largestFrames.maxFrameBytes.toNat ∧
      encodePlanStore flatHash [selfPathRecord] ⟨largestFrames, .ofNat 7⟩ [] =
        ({ ok := false, code := .persistenceLimitExceeded,
           detail := "store payload exceeded its ceiling" }, []) ∧
      ¬ KeepsCeilings flatHash largestFrames (.ofNat 7) [selfPathRecord] := by
  have hrefused : encodePlanStore flatHash [selfPathRecord] ⟨largestFrames, .ofNat 7⟩ [] =
      ({ ok := false, code := .persistenceLimitExceeded,
         detail := "store payload exceeded its ceiling" }, []) := by
    decide +kernel
  have hle : (storePayload (.ofNat 7) [selfPathRecord]).length ≤
      16 * largestFrames.maxFrameBytes.toNat := by decide +kernel
  refine ⟨by decide, by decide, List.forall_mem_singleton.mpr ⟨by decide, by decide, rfl, by decide⟩,
    hle, hrefused, fun h => ?_⟩
  have hok := h.succeeds hle []
  rw [hrefused] at hok
  cases hok

end PathPlanner
