import PathPlanner.Store.Soundness

/-!
# Plan identities in the store

The store reader recomputes the semantic digest of a record, but not its plan identity, which a plan
has from its digest. So a recovered plan has the identity of its content exactly when the image
says so: when the identity field of each record is the start of its digest field.

## Main definitions

* `storedKeys`: the identity and digest fields of an image, found by the layout alone
* `HasContentIdentity`: the identity of a record is the one of its content

## Main results

* `hasContentIdentity_iff`: the exact condition on the image
* `not_hasContentIdentity`: an image that is accepted without it
-/

namespace PathPlanner

open Decoder

/-- The identity of a record is the one of the plan that it gives. -/
def HasContentIdentity (sha : List UInt8 → Sha256Digest) (record : StoredPlanRecord) : Prop :=
  record.plan = (fromStoredRecord sha record).computePlanId sha

/-! ## The layout -/

/-- The bytes of a candidate. -/
def skimCandidate : Decoder ByteReader Unit Unit := do
  let _ ← ByteReader.fixedBytes 40 ()
  let hops ← ByteReader.varU64 ()
  let _ ← ByteReader.fixedBytes (hops * 100) ()
  let _ ← ByteReader.fixedBytes 56 ()
  pure ()

/-- The identity field and the digest field of a record. -/
def skimRecord : Decoder ByteReader Unit (PathPlanId × Sha256Digest) := do
  let _ ← ByteReader.fixedBytes 16 ()
  let plan ← ByteReader.rawId ()
  let _ ← ByteReader.fixedBytes 181 ()
  let digest ← ByteReader.digest ()
  let candidates ← ByteReader.varU64 ()
  let _ ← collect (fun _ => skimCandidate) candidates []
  pure (plan, digest)

/-- The identity fields and the digest fields of a payload. -/
def skimPayload : Decoder ByteReader Unit (List (PathPlanId × Sha256Digest)) := do
  let _ ← ByteReader.fixedBytes 8 ()
  let records ← ByteReader.varU64 ()
  collect (fun _ => skimRecord) records []

/-- The identity and digest fields of an image that has the layout. -/
def storedKeys (image : List UInt8) : List (PathPlanId × Sha256Digest) :=
  match skimPayload.run (.new (storedPayload image)) with
  | .ok (keys, _) => keys
  | .error _ => []

/-- Bytes that are skipped. -/
theorem reads_fixedBytes {count : ℕ} {word : List UInt8} (h : word.length = count) :
    Reads (ByteReader.fixedBytes count ()) word word :=
  .ofSpells (ByteReader.fixedBytes_spells count ()) h

theorem reads_skimCandidate {row : StoredCandidate} (h : row.1.hops.length < 2 ^ 64) :
    Reads skimCandidate (storedCandidateWord row) () := by
  have hhops : (row.1.hops.flatMap PathHop.word).length = row.1.hops.length * 100 := by
    rw [List.length_flatMap, List.map_congr_left fun hop _ => hop.length_word, List.map_const',
      List.sum_replicate, smul_eq_mul]
  have hword : storedCandidateWord row =
      (littleEndian 4 pathEncodingVersion ++ row.1.source.word ++ row.1.destination.word ++
        WireEnum.word row.1.layer) ++ (varWord row.1.hops.length ++
        (row.1.hops.flatMap PathHop.word ++
          ((row.2.1.word ++ littleEndian 4 row.2.2.value) ++ []))) := by
    simp only [storedCandidateWord, CandidatePath.word, listWord, List.append_assoc,
      List.append_nil]
  rw [hword]
  refine (reads_fixedBytes ?_).bind <| (Reads.ofSpells (ByteReader.varU64_spells ()) h).bind <|
    (reads_fixedBytes hhops).bind <| (reads_fixedBytes ?_).bind <| .pure ()
  · simp [WireEnum.word]
  · simp [PathCost.word]

theorem reads_skimRecord {record : StoredPlanRecord} (hrows : record.rows.length < 2 ^ 64)
    (hhops : ∀ row ∈ record.rows, row.1.hops.length < 2 ^ 64) :
    Reads skimRecord record.word (record.plan, record.semanticDigest) := by
  have hword : record.word = record.request.word ++ (record.plan.word ++
      ((littleEndian 8 record.generation.value ++ littleEndian 8 record.publishSequence.value ++
        WireEnum.word record.status ++ record.constraintSet.word ++
        littleEndian 8 record.constraintGeneration.value ++
        littleEndian 8 record.policyGeneration.value ++ record.source.word ++
        record.destination.word ++ WireEnum.word record.layer ++ boolWord record.diagnosticMode ++
        record.evidence.word) ++ (record.semanticDigest.word ++ (varWord record.rows.length ++
          (record.rows.flatMap storedCandidateWord ++ []))))) := by
    simp only [StoredPlanRecord.word, listWord, List.append_assoc, List.append_nil]
  rw [hword]
  refine (reads_fixedBytes record.request.length_word).bind <|
    (Reads.ofSpells (ByteReader.rawId_spells ()) trivial).bind <| (reads_fixedBytes ?_).bind <|
    (Reads.ofSpells (ByteReader.digest_spells ()) trivial).bind <|
    (Reads.ofSpells (ByteReader.varU64_spells ()) hrows).bind <|
    (Reads.collect (fun row hrow => reads_skimCandidate (hhops row hrow)) []).bind <| .pure _
  simp [EvidenceVector.word, SnapshotGenerations.word, WireEnum.word]

/-- The fields of an accepted image are the ones of its records. -/
theorem storedKeys_storeImage {sha : List UInt8 → Sha256Digest} {limits : ResourceLimits}
    {sequence : PlanPublishSequence} {records : List StoredPlanRecord}
    (h : AreReadable sha limits records) :
    storedKeys (storeImage sha sequence records) =
      records.map fun record => (record.plan, record.semanticDigest) := by
  have hread : Reads skimPayload (littleEndian 8 sequence.value ++ (varWord records.length ++
      records.flatMap StoredPlanRecord.word))
      ([] ++ records.map fun record => (record.plan, record.semanticDigest)) := by
    refine (reads_fixedBytes (length_littleEndian 8 _)).bind <|
      (Reads.ofSpells (ByteReader.varU64_spells ()) ?_).bind <|
      .collect (fun record hrecord => ?_) []
    · exact h.1.trans_lt (ByteReader.ceiling_lt _)
    · obtain ⟨before, after, hsplit⟩ := List.append_of_mem hrecord
      have hreadable := h.2 before record after hsplit
      have hlength : record.rows.length ≤ record.candidates.length := by
        simp [StoredPlanRecord.rows]
      refine reads_skimRecord ?_ fun row hrow => ?_
      · exact (hlength.trans hreadable.length_le).trans_lt (ByteReader.ceiling_lt _)
      · obtain ⟨rows, after, hrows⟩ := List.append_of_mem hrow
        exact (hreadable.rows_isReadable rows row after hrows).path_isReadable.hops_le.trans_lt
          (ByteReader.ceiling_lt _)
  have hpayload : storedPayload (storeImage sha sequence records) =
      littleEndian 8 sequence.value ++ (varWord records.length ++
        records.flatMap StoredPlanRecord.word) :=
    (take_drop_storeImage sha sequence records).2.2
  have hrun := hread (.new (littleEndian 8 sequence.value ++ (varWord records.length ++
    records.flatMap StoredPlanRecord.word))) List.prefix_rfl
  unfold storedKeys
  rw [hpayload, hrun]
  rfl

/-! ## The condition -/

/-- A digest with a start that is not nil is not zero. -/
theorem isZero_eq_false {Tag : Type} {n : ℕ} {digest : Sha256Digest}
    (h : (FixedId.fromDigest digest : FixedId Tag n).isValid = true) : digest.isZero = false := by
  rw [← Bool.not_eq_true]
  intro hzero
  have hbytes (i : ℕ) : digest.bytes.toList.getD i 0 = 0 := by
    rw [List.getD_eq_getElem?_getD]
    cases hi : digest.bytes.toList[i]? with
    | none => rfl
    | some byte => exact beq_iff_eq.mp (List.all_eq_true.mp hzero byte (List.mem_of_getElem? hi))
  obtain ⟨byte, hmem, hne⟩ := List.any_eq_true.mp h
  rw [FixedId.fromDigest, Vector.mem_toList_iff, Vector.mem_ofFn] at hmem
  obtain ⟨i, rfl⟩ := hmem
  rw [hbytes] at hne
  cases hne

/-- An accepted record has the identity of its content exactly when the identity is the start of
its digest. -/
theorem StoredPlanRecord.IsReadable.contentIdentity_iff {sha : List UInt8 → Sha256Digest}
    {limits : ResourceLimits} {before : List StoredPlanRecord} {record : StoredPlanRecord}
    (h : record.IsReadable sha limits before) :
    HasContentIdentity sha record ↔ record.plan = FixedId.fromDigest record.semanticDigest := by
  have hvalid := h.plan_isValid
  simp only [HasContentIdentity, PathPlan.computePlanId, h.digest_eq]
  constructor
  · intro hplan
    split_ifs at hplan with hzero
    · rw [hplan] at hvalid
      exact absurd hvalid (by decide)
    · exact hplan
  · intro hplan
    rw [hplan] at hvalid
    rw [isZero_eq_false hvalid]
    exact hplan

/-- **The identities of recovered plans**: every record of an accepted image has the identity of its
content exactly when the identity field of each record of the image is the start of its digest
field. -/
theorem hasContentIdentity_iff (sha : List UInt8 → Sha256Digest) (limits : ResourceLimits)
    {image : List UInt8} {out records : List StoredPlanRecord}
    (h : decodePlanStore sha limits image out = some ({ ok := true }, records)) :
    (∀ record ∈ records, HasContentIdentity sha record) ↔
      ∀ key ∈ storedKeys image, key.1 = FixedId.fromDigest key.2 := by
  obtain ⟨hreadable, sequence, rfl, -⟩ :=
    (decodeImage_eq_ok_iff sha limits).mp ((decodePlanStore_eq_some_ok_iff sha limits).mp h)
  rw [storedKeys_storeImage hreadable, List.forall_mem_map]
  refine forall₂_congr fun record hrecord => ?_
  obtain ⟨before, after, hsplit⟩ := List.append_of_mem hrecord
  exact (hreadable.2 before record after hsplit).contentIdentity_iff

/-- The record of a path without hops, under the identity of its content. -/
def namedRecord : StoredPlanRecord :=
  { selfPathRecord with plan := FixedId.fromDigest selfPathRecord.semanticDigest }

/-- Its image is accepted, and so is the record. -/
theorem hasContentIdentity_iff_namedImage :
    decodePlanStore flatHash {} (storeImage flatHash (.ofNat 7) [namedRecord]) [] =
        some ({ ok := true }, [namedRecord]) ∧
      ∀ record ∈ [namedRecord], HasContentIdentity flatHash record := by
  have hself : selfPathRecord.IsReadable flatHash {} [] :=
    selfPathRecord_isReadable.2 [] selfPathRecord [] rfl
  have hnamed : namedRecord.IsReadable flatHash {} [] :=
    { hself with
      plan_isValid := by decide
      plan_new := List.not_mem_nil
      digest_eq := PathPlan.computeSemanticDigest_eq _ _ }
  have hreadable : AreReadable flatHash {} [namedRecord] :=
    ⟨by decide, eachAfter_cons_iff.mpr ⟨hnamed, eachAfter_nil⟩⟩
  have haccepted : decodePlanStore flatHash {} (storeImage flatHash (.ofNat 7) [namedRecord]) [] =
      some ({ ok := true }, [namedRecord]) :=
    (decodePlanStore_eq_some_ok_iff _ _).mpr
      (decodeImage_storeImage _ _ hreadable (by decide +kernel))
  refine ⟨haccepted, (hasContentIdentity_iff flatHash {} haccepted).mpr ?_⟩
  rw [storedKeys_storeImage hreadable]
  decide

/-- The image of a record under another identity is accepted. -/
theorem not_hasContentIdentity :
    ¬ ∀ (sha : List UInt8 → Sha256Digest) (limits : ResourceLimits) (image : List UInt8)
      (out records : List StoredPlanRecord),
      decodePlanStore sha limits image out = some ({ ok := true }, records) →
        ∀ record ∈ records, HasContentIdentity sha record := by
  intro hall
  have hself := hall flatHash {} selfPathImage [] _ decodePlanStore_selfPathImage selfPathRecord
    (List.mem_singleton.mpr rfl)
  unfold HasContentIdentity PathPlan.computePlanId at hself
  rw [PathPlan.computeSemanticDigest_eq] at hself
  exact absurd hself (by decide)

end PathPlanner
