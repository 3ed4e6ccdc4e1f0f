import PathPlanner.Store.Decode

/-!
# What the store reader guarantees

Whatever the bytes of an image are, the store reader stays inside them, and either leaves its output
alone or puts out records that are sound. An image that it accepts is what the writer makes of these
records, so no two accepted images say the same.

## Main definitions

* `StoredPlanRecord.IsSound`: what holds of every record that was read
* `storedSequence`: the publish sequence of an image

## Main results

* `decodePlanStore_isSound`: the reader is total, atomic and sound
* `encodePlanStore_decodePlanStore`: **the format is canonical**
-/

namespace PathPlanner

open Decoder

/-- A record whose fields fit together. -/
structure StoredPlanRecord.IsSound (sha : List UInt8 → Sha256Digest) (limits : ResourceLimits)
    (record : StoredPlanRecord) : Prop where
  request_isValid : record.request.isValid = true
  plan_isValid : record.plan.isValid = true
  constraintSet_isValid : record.constraintSet.isValid = true
  source_isValid : record.source.isValid = true
  destination_isValid : record.destination.isValid = true
  snapshot_isValid : record.evidence.snapshot.isValid = true
  hops_isValid : ∀ path ∈ record.candidates, ∀ hop ∈ path.hops, hop.link.isValid = true ∧
    hop.source.isValid = true ∧ hop.target.isValid = true ∧ hop.fromPort.isValid = true ∧
    hop.toPort.isValid = true
  candidateIds_nodup : (record.candidates.map (CandidatePath.id sha)).Nodup
  ranks_eq : record.ranks.map (·.value) = List.range' 1 record.candidates.length
  isWellFormed : ∀ path ∈ record.candidates, path.isWellFormed = true
  nodes_nodup : ∀ path ∈ record.candidates, path.nodes.Nodup
  hops_le : ∀ path ∈ record.candidates, path.hops.length ≤ limits.maxHops.toNat
  hops_eq : record.costs.map (·.hops.value) = record.candidates.map (·.hops.length)
  total_eq : ∀ cost ∈ record.costs, cost.total.value = cost.hopsCost.value + cost.staticCost.value +
    cost.degradedPenalty.value + cost.localityPenalty.value
  totals_pairwise : record.costs.Pairwise fun a b => a.total ≤ b.total
  generation_le : ∀ path ∈ record.candidates, ∀ hop ∈ path.hops,
    hop.structuralGeneration.value ≤ record.evidence.generations.topology.value
  digest_eq : record.semanticDigest = (fromStoredRecord sha record).computeSemanticDigest sha

section Records

variable {sha : List UInt8 → Sha256Digest} {limits : ResourceLimits} {record : StoredPlanRecord}
  {before : List StoredPlanRecord}

/-- The columns of the rows of a record whose columns are equally long. -/
theorem StoredPlanRecord.map_rows (hcosts : record.costs.length = record.candidates.length)
    (hranks : record.ranks.length = record.candidates.length) :
    record.rows.map (·.1) = record.candidates ∧ record.rows.map (·.2.1) = record.costs ∧
      record.rows.map (·.2.2) = record.ranks := by
  have h := rebuilt_eq_self_iff.mpr ⟨hcosts, hranks⟩
  exact ⟨congrArg candidates h, congrArg costs h, congrArg ranks h⟩

/-- A record that was accepted is sound. -/
theorem StoredPlanRecord.IsReadable.isSound (h : record.IsReadable sha limits before) :
    record.IsSound sha limits := by
  obtain ⟨hcandidates, hcosts, hranks⟩ := map_rows h.costs_length h.ranks_length
  have hrow (row : StoredCandidate) (hmem : row ∈ record.rows) : ∃ rows,
      StoredCandidate.IsReadable sha limits record.evidence rows row := by
    obtain ⟨rows, after, hsplit⟩ := List.append_of_mem hmem
    exact ⟨rows, h.rows_isReadable rows row after hsplit⟩
  have hpath (path : CandidatePath) (hpath : path ∈ record.candidates) :
      path.IsReadable limits.maxHops.toNat ∧ ∀ hop ∈ path.hops,
        hop.structuralGeneration.value ≤ record.evidence.generations.topology.value := by
    rw [← hcandidates] at hpath
    obtain ⟨row, hmem, rfl⟩ := List.mem_map.mp hpath
    obtain ⟨rows, hreadable⟩ := hrow row hmem
    exact ⟨hreadable.path_isReadable, hreadable.generation_le⟩
  refine
    { request_isValid := h.request_isValid
      plan_isValid := h.plan_isValid
      constraintSet_isValid := h.constraintSet_isValid
      source_isValid := h.source_isValid
      destination_isValid := h.destination_isValid
      snapshot_isValid := h.snapshot_isValid
      hops_isValid := fun path hmem hop hhop => ?_
      candidateIds_nodup := ?_
      ranks_eq := ?_
      isWellFormed := fun path hmem => (hpath path hmem).1.isWellFormed
      nodes_nodup := fun path hmem => CandidatePath.isSimple_iff.mp (hpath path hmem).1.isSimple
      hops_le := fun path hmem => (hpath path hmem).1.hops_le
      hops_eq := ?_
      total_eq := fun cost hmem => ?_
      totals_pairwise := ?_
      generation_le := fun path hmem => (hpath path hmem).2
      digest_eq := h.digest_eq.symm }
  · have hreadable := (hpath path hmem).1.hops_isReadable hop hhop
    exact ⟨hreadable.link_isValid, hreadable.source_isValid, hreadable.target_isValid,
      hreadable.fromPort_isValid, hreadable.toPort_isValid⟩
  · rw [← hcandidates, List.map_map]
    exact eachAfter_notMem_iff.mp (h.rows_isReadable.imp fun _ _ hreadable => hreadable.id_new)
  · rw [← hranks, ← hcandidates, List.map_map, List.length_map]
    exact eachAfter_eq_length_iff.mp (h.rows_isReadable.imp fun _ _ hreadable => hreadable.rank_eq)
  · rw [← hcosts, ← hcandidates, List.map_map, List.map_map]
    refine List.map_congr_left fun row hmem => ?_
    obtain ⟨rows, hreadable⟩ := hrow row hmem
    exact hreadable.hops_eq
  · rw [← hcosts] at hmem
    obtain ⟨row, hrowMem, rfl⟩ := List.mem_map.mp hmem
    obtain ⟨rows, hreadable⟩ := hrow row hrowMem
    exact hreadable.cost_isCoherent.total_eq
  · exact List.pairwise_map.mp ((List.isChain_map PathCost.total).mpr h.costs_isChain).pairwise

/-- Records that were accepted are sound, and none has the plan of another one. -/
theorem AreReadable.isSound {records : List StoredPlanRecord} (h : AreReadable sha limits records) :
    (records.map (·.plan)).Nodup ∧ ∀ record ∈ records, record.IsSound sha limits := by
  refine ⟨eachAfter_notMem_iff.mp (h.2.imp fun _ _ hreadable => hreadable.plan_new), ?_⟩
  exact eachAfter_const_iff.mp (h.2.imp fun _ _ hreadable => hreadable.isSound)

end Records

variable (sha : List UInt8 → Sha256Digest) (limits : ResourceLimits)

/-- What a call of the store reader returns. -/
theorem decodePlanStore_eq_some_ok_iff {image : List UInt8} {out records : List StoredPlanRecord} :
    decodePlanStore sha limits image out = some ({ ok := true }, records) ↔
      decodeImage sha limits image = .ok records := by
  unfold decodePlanStore
  cases h : decodeImage sha limits image with
  | ok records' => simp [withOutput]
  | error stop =>
    cases stop with
    | fault => simp
    | refused failure => simp [withOutput]

/-- **The store reader is sound and atomic**: for every image it returns, that is, it accesses
nothing outside the image. When it fails, its output is as it was. When it succeeds, the records are
sound, and no two of them are of one plan. -/
theorem decodePlanStore_isSound (image : List UInt8) (out : List StoredPlanRecord) :
    ∃ result out', decodePlanStore sha limits image out = some (result, out') ∧
      (result.ok = false → out' = out) ∧
      (result.ok = true → (out'.map (·.plan)).Nodup ∧
        ∀ record ∈ out', record.IsSound sha limits) := by
  unfold decodePlanStore
  cases h : decodeImage sha limits image with
  | error stop =>
    cases stop with
    | fault => exact absurd h (decodeImage_ne_fault sha limits image)
    | refused failure => exact ⟨_, _, rfl, fun _ => rfl, fun hok => by cases hok⟩
  | ok records =>
    exact ⟨{ ok := true }, records, rfl, fun hok => absurd hok (by decide),
      fun _ => ((decodeImage_eq_ok_iff sha limits).mp h).1.isSound⟩

/-! ## Canonicity -/

/-- The payload of an image. -/
def storedPayload (image : List UInt8) : List UInt8 :=
  image.drop (storeHeaderBytes + storeDigestBytes)

/-- The publish sequence of an image: the first eight bytes of its payload. -/
def storedSequence (image : List UInt8) : PlanPublishSequence :=
  .ofNat (ByteReader.ofLittleEndian ((storedPayload image).take 8))

theorem storedSequence_storeImage (sequence : PlanPublishSequence)
    (records : List StoredPlanRecord) :
    storedSequence (storeImage sha sequence records) = sequence := by
  unfold storedSequence storedPayload
  rw [(take_drop_storeImage sha sequence records).2.2, storePayload,
    List.take_left' (length_littleEndian 8 _), ByteReader.ofLittleEndian_littleEndian sequence.lt]
  exact StrongUInt.ext_iff.mpr (Nat.mod_eq_of_lt sequence.lt)

/-- **The format is canonical**: writing the records of an accepted image gives the image again, byte
for byte, so an accepted image is determined by its records and its sequence. -/
theorem encodePlanStore_decodePlanStore {image : List UInt8} {out records : List StoredPlanRecord}
    (h : decodePlanStore sha limits image out = some ({ ok := true }, records))
    (hlimits : validateLimits limits = none)
    (hfits : (storedPayload image).length ≤ storePayloadCeiling limits) (out' : List UInt8) :
    encodePlanStore sha records ⟨limits, storedSequence image⟩ out' = ({ ok := true }, image) ∧
      ∀ image', decodePlanStore sha limits image' out = some ({ ok := true }, records) →
        storedSequence image' = storedSequence image → image' = image := by
  obtain ⟨hreadable, sequence, rfl, -⟩ :=
    (decodeImage_eq_ok_iff sha limits).mp ((decodePlanStore_eq_some_ok_iff sha limits).mp h)
  rw [storedPayload, (take_drop_storeImage sha sequence records).2.2] at hfits
  rw [storedSequence_storeImage]
  constructor
  · have hwritable : ∀ record ∈ records, record.IsWritable limits :=
      eachAfter_const_iff.mp (hreadable.2.imp fun _ _ hrecord => ⟨hrecord.plan_isValid,
        hrecord.request_isValid, hrecord.costs_length.symm, hrecord.length_le⟩)
    have hencoded : encodeImage sha records ⟨limits, sequence⟩ =
        .ok (storeImage sha sequence records) :=
      encodeImage_eq_ok_iff.mpr ⟨hlimits, hreadable.1, hwritable, hfits, rfl⟩
    unfold encodePlanStore
    rw [hencoded]
    rfl
  · intro image' h' hsequence
    obtain ⟨-, sequence', rfl, -⟩ :=
      (decodeImage_eq_ok_iff sha limits).mp ((decodePlanStore_eq_some_ok_iff sha limits).mp h')
    rw [storedSequence_storeImage] at hsequence
    rw [hsequence]

/-! ### An image -/

/-- A hash function that is one everywhere. -/
def flatHash : List UInt8 → Sha256Digest := fun _ => ⟨Vector.replicate 32 1⟩

/-- A record of the path from a node to itself without hops. -/
def selfPathRecord : StoredPlanRecord where
  request := .tagged 0 1
  plan := .tagged 0 2
  status := .planned
  evidence := { snapshot := .tagged 0 3 }
  constraintSet := .tagged 0 4
  source := .tagged 0 5
  destination := .tagged 0 5
  candidates := [{ source := .tagged 0 5, destination := .tagged 0 5, nodes := [.tagged 0 5] }]
  costs := [⟨.ofNat 0, .ofNat 0, .ofNat 0, .ofNat 0, .ofNat 0, .ofNat 0, 0, 0⟩]
  ranks := [.ofNat 1]
  semanticDigest := flatHash []

/-- Its image. -/
def selfPathImage : List UInt8 := storeImage flatHash (.ofNat 7) [selfPathRecord]

theorem selfPathRecord_isReadable : AreReadable flatHash {} [selfPathRecord] := by
  have hpath : CandidatePath.IsReadable 512
      { source := .tagged 0 5, destination := .tagged 0 5, nodes := [.tagged 0 5] } :=
    ⟨by decide, by decide, by decide, by decide, fun _ hop => absurd hop List.not_mem_nil,
      by decide, by decide, by decide⟩
  refine ⟨by decide, eachAfter_cons_iff.mpr ⟨?_, eachAfter_nil⟩⟩
  refine
    { request_isValid := by decide
      plan_isValid := by decide
      constraintSet_isValid := by decide
      source_isValid := by decide
      destination_isValid := by decide
      layer_isKnown := by decide
      snapshot_isValid := by decide
      length_le := by decide
      costs_length := rfl
      ranks_length := rfl
      rows_isReadable := eachAfter_cons_iff.mpr ⟨?_, eachAfter_nil⟩
      costs_isChain := .singleton _
      plan_new := List.not_mem_nil
      digest_eq := PathPlan.computeSemanticDigest_eq _ _ }
  exact ⟨hpath, ⟨by decide, by decide, by decide, by decide⟩, by decide, by decide, by decide,
    fun _ hop => absurd hop List.not_mem_nil, List.not_mem_nil⟩

theorem decodePlanStore_selfPathImage :
    decodePlanStore flatHash {} selfPathImage [] = some ({ ok := true }, [selfPathRecord]) :=
  (decodePlanStore_eq_some_ok_iff _ _).mpr
    (decodeImage_storeImage _ _ selfPathRecord_isReadable (by decide +kernel))

theorem encodePlanStore_decodePlanStore_selfPath :
    encodePlanStore flatHash [selfPathRecord] ⟨{}, storedSequence selfPathImage⟩ [] =
        ({ ok := true }, selfPathImage) ∧
      ∀ image, decodePlanStore flatHash {} image [] = some ({ ok := true }, [selfPathRecord]) →
        storedSequence image = storedSequence selfPathImage → image = selfPathImage :=
  encodePlanStore_decodePlanStore flatHash {} decodePlanStore_selfPathImage (by decide)
    (by decide +kernel) []

end PathPlanner
