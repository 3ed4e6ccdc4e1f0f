import PathPlanner.Core.Reader
import PathPlanner.Plan.Request

/-!
# Enumerations on the wire

An enumeration is written as its numeric value and is read back when its table of names knows the
value. Where the type also holds the values that no enumerator declares, those are exactly the
values that are refused.

## Main definitions

* `WireEnum`: an enumeration with its table
* `WireEnum.IsKnown`: the table knows the value

## Main results

* `ByteReader.enumeration_spells`: an enumeration is read back exactly when it is known
-/

namespace PathPlanner

open Decoder

/-- An enumeration that is written as its value. -/
class WireEnum (E : Type) where
  names : List (String × ℕ)
  value : E → ℕ
  /-- The enumerator with a value of the table. -/
  ofValue : ℕ → E
  value_lt : ∀ e, value e < 2 ^ 32
  value_ofValue : ∀ entry ∈ names, value (ofValue entry.2) = entry.2
  ofValue_value : ∀ e, isKnownEnumValue names (value e) = true → ofValue (value e) = e

/-- The table of names knows the value. -/
def WireEnum.IsKnown {E : Type} [WireEnum E] (e : E) : Prop :=
  isKnownEnumValue (names E) (value e) = true

instance {E : Type} [WireEnum E] (e : E) : Decidable (WireEnum.IsKnown e) :=
  inferInstanceAs (Decidable (_ = true))

/-- The word of an enumeration. -/
def WireEnum.word {E : Type} [WireEnum E] (e : E) : List UInt8 := littleEndian 4 (value e)

/-- A value outside the range of a table is not known. -/
theorem not_isKnownEnumValue {table : List (String × ℕ)} {raw last : UInt32}
    (htable : ∀ entry ∈ table, 0 < entry.2 ∧ entry.2 ≤ last.toNat) (hraw : raw = 0 ∨ last < raw) :
    ¬ isKnownEnumValue table raw.toNat = true := by
  intro hknown
  obtain ⟨entry, hentry, hvalue⟩ := exists_of_isKnownEnumValue hknown
  obtain ⟨hpos, hle⟩ := htable entry hentry
  rcases hraw with rfl | hlt
  · rw [hvalue] at hpos
    exact absurd hpos (by decide)
  · have hlt := UInt32.lt_iff_toNat_lt.mp hlt
    omega

/-! ## Reading -/

/-- `ReadEnumValue` and `DecodeEnumValue`: an enumeration whose value is known. -/
def ByteReader.enumeration {ε : Type} (E : Type) [WireEnum E] (missing : ε) (unknown : ℕ → ε) :
    Decoder ByteReader ε E := do
  let raw ← uint 4 missing
  ensure (isKnownEnumValue (WireEnum.names E) raw = true) (unknown raw)
  pure (WireEnum.ofValue raw)

/-- **Enumerations**: exactly the known ones are read back. -/
theorem ByteReader.enumeration_spells {ε E : Type} [WireEnum E] (missing : ε) (unknown : ℕ → ε) :
    Spells (enumeration E missing unknown) WireEnum.IsKnown WireEnum.word := by
  refine (uint_spells 4 missing).bind
    (K := fun raw e => WireEnum.value e = raw ∧ WireEnum.IsKnown e) (w := fun _ _ => [])
    (fun raw _ => ?_) (fun e => ?_) fun raw e _ he => ?_
  · refine .guard (fun hknown e he => hknown (he.1 ▸ he.2)) fun hknown => ?_
    refine (Spells.pure _).congr (fun e => ?_) fun _ _ => rfl
    constructor
    · rintro ⟨rfl, he⟩
      exact (WireEnum.ofValue_value e he).symm
    · rintro rfl
      obtain ⟨entry, hentry, rfl⟩ := exists_of_isKnownEnumValue hknown
      have hvalue := WireEnum.value_ofValue (E := E) entry hentry
      refine ⟨hvalue, ?_⟩
      unfold WireEnum.IsKnown
      rw [hvalue]
      exact hknown
  · constructor
    · exact fun he => ⟨WireEnum.value e, WireEnum.value_lt e, rfl, he⟩
    · rintro ⟨_, -, -, he⟩
      exact he
  · rw [WireEnum.word, he.1, List.append_nil]

/-! ## Tables -/

/-- `kPlanStatusNames`. -/
def planStatusNames : List (String × ℕ) :=
  [("PLANNED", 1), ("NO_PATH", 2), ("SOURCE_UNKNOWN", 3), ("DESTINATION_UNKNOWN", 4),
    ("SOURCE_STALE", 5), ("DESTINATION_STALE", 6), ("TOPOLOGY_STALE", 7), ("EPOCH_STALE", 8),
    ("CONSTRAINT_UNSATISFIED", 9), ("RESOURCE_LIMIT", 10), ("REVALIDATION_REQUIRED", 11),
    ("MALFORMED_REQUEST", 12), ("UNAUTHORIZED", 13), ("UNSUPPORTED", 14),
    ("TRUNCATED_BY_LIMIT", 15)]

/-- `kCurrentnessNames`. -/
def currentnessNames : List (String × ℕ) :=
  [("CURRENT", 1), ("REVALIDATION_REQUIRED", 2), ("STALE_TOPOLOGY", 3), ("STALE_LINK_STATE", 4),
    ("STALE_PORT_STATE", 5), ("STALE_CAPABILITY", 6), ("STALE_FAILURE_DOMAIN", 7),
    ("STALE_POLICY", 8), ("STALE_EPOCH", 9), ("RETIRED", 10)]

/-- `kRelationshipTypeNames`. -/
def relationshipTypeNames : List (String × ℕ) :=
  [("DIRECT_LINK", 1), ("LOGICAL_ADJACENCY", 2), ("TUNNEL_ENCAPSULATION", 3), ("PORT_PAIRING", 4)]

/-- `kEvidenceSourceNames`. -/
def evidenceSourceNames : List (String × ℕ) :=
  [("REAL", 1), ("SYNTHETIC", 2), ("MIXED", 3)]

/-- `kAuthorityValidationNames`. -/
def authorityValidationNames : List (String × ℕ) :=
  [("NOT_REQUESTED", 1), ("VALIDATED", 2), ("REJECTED", 3), ("UNAVAILABLE", 4)]

/-- `kTransitKindNames`. -/
def transitKindNames : List (String × ℕ) := [("EXACT", 1), ("ANY_OF", 2)]

/-- `kDiagnosticCodeNames`. -/
def diagnosticCodeNames : List (String × ℕ) :=
  [("MALFORMED_IDENTIFIER", 1), ("DUPLICATE_IDENTIFIER", 2), ("UNKNOWN_ENDPOINT", 3),
    ("AMBIGUOUS_ENDPOINT", 4), ("ENTITY_GENERATION_MISMATCH", 5),
    ("TOPOLOGY_GENERATION_MISMATCH", 6), ("EPOCH_MISMATCH", 7), ("LINK_STATE_DOWN", 8),
    ("LINK_STATE_FAULTED", 9), ("LINK_STATE_RETIRED", 10),
    ("LINK_STATE_REVALIDATION_REQUIRED", 11), ("LINK_STATE_UNKNOWN", 12),
    ("LINK_STATE_DEGRADED_DISALLOWED", 13), ("PORT_ADMIN_DISABLED", 14), ("PORT_DRAINING", 15),
    ("PORT_MAINTENANCE", 16), ("PORT_RETIRED", 17), ("PORT_SUPERSEDED", 18),
    ("PORT_REVALIDATION_REQUIRED", 19), ("PORT_UNKNOWN", 20), ("CAPABILITY_UNKNOWN", 21),
    ("CAPABILITY_INSUFFICIENT", 22), ("FAILURE_DOMAIN_FORBIDDEN", 23),
    ("FAILURE_DOMAIN_UNKNOWN", 24), ("FAILURE_DOMAIN_MEMBER_LIMIT_EXCEEDED", 25),
    ("FAILURE_DOMAIN_CLASS_FORBIDDEN", 26), ("FORBIDDEN_NODE", 27), ("FORBIDDEN_LINK", 28),
    ("FORBIDDEN_PORT", 29), ("REQUIRED_NODE_MISSING", 30), ("REQUIRED_ANY_SET_UNSATISFIED", 31),
    ("MAX_HOPS_EXCEEDED", 32), ("LAYER_MISMATCH", 33), ("SELF_LOOP_REJECTED", 34),
    ("DISCONNECTED_GRAPH", 35), ("NO_STRUCTURAL_PATH", 36), ("COST_OVERFLOW", 37),
    ("HOP_COUNT_OVERFLOW", 38), ("WORK_BUDGET_EXHAUSTED", 39), ("CANDIDATE_LIMIT_EXCEEDED", 40),
    ("CONSTRAINT_COUNT_EXCEEDED", 41), ("REQUESTED_CANDIDATES_ABOVE_CEILING", 42),
    ("DUPLICATE_CONSTRAINT_ENTRY", 43), ("ZERO_HOP_SELF_PATH_DISALLOWED", 44),
    ("STALE_EVIDENCE", 45), ("INVALIDATION_WATERMARK_CHANGED", 46), ("WORKER_BOOT_FENCED", 47),
    ("COORDINATOR_EPOCH_STALE", 48), ("AUTHORITY_SCOPE_INSUFFICIENT", 49),
    ("PERSISTENCE_CORRUPT", 50), ("PERSISTENCE_VERSION_UNSUPPORTED", 51),
    ("PERSISTENCE_DIGEST_MISMATCH", 52), ("PERSISTENCE_TRAILING_BYTES", 53),
    ("PERSISTENCE_DUPLICATE_PLAN", 54), ("PERSISTENCE_DUPLICATE_CANDIDATE", 55),
    ("PERSISTENCE_LIMIT_EXCEEDED", 56), ("PROTOCOL_MALFORMED_FRAME", 57),
    ("PROTOCOL_VERSION_MISMATCH", 58), ("PROTOCOL_INTEGRITY_MISMATCH", 59),
    ("PROTOCOL_TRAILING_BYTES", 60), ("PROTOCOL_UNKNOWN_MESSAGE", 61),
    ("PROTOCOL_RECEIVE_BOUND_EXCEEDED", 62), ("PROTOCOL_SESSION_LIMIT", 63),
    ("PROTOCOL_SLOW_PEER", 64), ("GRAPH_TOO_LARGE", 65), ("TOO_MANY_EDGES", 66),
    ("NON_CURRENT_CANDIDATE", 67), ("AUTHORITY_VALIDATION_REJECTED", 68),
    ("AUTHORITY_VALIDATION_UNAVAILABLE", 69), ("UNSUPPORTED_ENDPOINT_CLASS", 70),
    ("UNSUPPORTED_LAYER", 71), ("UNSUPPORTED_REQUEST", 72), ("TRUNCATED_BY_LIMIT", 73),
    ("UNKNOWN_SOURCE_ENTITY", 74), ("UNKNOWN_DESTINATION_ENTITY", 75),
    ("SNAPSHOT_NOT_AVAILABLE", 76), ("PLAN_NOT_FOUND", 77), ("PLAN_RETIRED", 78),
    ("DUPLICATE_PLAN_IDENTITY", 79), ("CANCELLED", 80), ("PERSISTENCE_IMPOSSIBLE_VALUE", 81)]

/-- The stable numeric value of a currentness. -/
def Currentness.value (currentness : Currentness) : ℕ := currentness.ctorIdx + 1

/-- The stable numeric value of an authority validation. -/
def AuthorityValidation.value (validation : AuthorityValidation) : ℕ := validation.ctorIdx + 1

/-- The numeric value of a transit kind. -/
def TransitKind.value : TransitKind → ℕ
  | exact => 1
  | anyOf => 2
  | undeclared raw _ => raw.toNat

/-! ## Closed enumerations -/

instance : WireEnum PlanStatus where
  names := planStatusNames
  value := PlanStatus.value
  ofValue n := PlanStatus.ofNat (n - 1)
  value_lt e := by cases e <;> decide
  value_ofValue := by decide
  ofValue_value e _ := by cases e <;> rfl

instance : WireEnum Currentness where
  names := currentnessNames
  value := Currentness.value
  ofValue n := Currentness.ofNat (n - 1)
  value_lt e := by cases e <;> decide
  value_ofValue := by decide
  ofValue_value e _ := by cases e <;> rfl

instance : WireEnum RelationshipType where
  names := relationshipTypeNames
  value := RelationshipType.value
  ofValue n := RelationshipType.ofNat (n - 1)
  value_lt e := by cases e <;> decide
  value_ofValue := by decide
  ofValue_value e _ := by cases e <;> rfl

instance : WireEnum EvidenceSource where
  names := evidenceSourceNames
  value := EvidenceSource.value
  ofValue n := EvidenceSource.ofNat (n - 1)
  value_lt e := by cases e <;> decide
  value_ofValue := by decide
  ofValue_value e _ := by cases e <;> rfl

instance : WireEnum AuthorityValidation where
  names := authorityValidationNames
  value := AuthorityValidation.value
  ofValue n := AuthorityValidation.ofNat (n - 1)
  value_lt e := by cases e <;> decide
  value_ofValue := by decide
  ofValue_value e _ := by cases e <;> rfl

instance : WireEnum SubjectKind where
  names := subjectKindNames
  value := SubjectKind.value
  ofValue n := SubjectKind.ofNat (n - 1)
  value_lt e := by cases e <;> decide
  value_ofValue := by decide
  ofValue_value e _ := by cases e <;> rfl

instance : WireEnum DiagnosticCode where
  names := diagnosticCodeNames
  value := DiagnosticCode.value
  ofValue n := DiagnosticCode.ofNat (n - 1)
  value_lt e := by cases e <;> decide
  value_ofValue := by decide
  ofValue_value e _ := by cases e <;> rfl

@[simp] theorem PlanStatus.isKnown (e : PlanStatus) : WireEnum.IsKnown e := by
  cases e <;> decide

@[simp] theorem Currentness.isKnown (e : Currentness) : WireEnum.IsKnown e := by
  cases e <;> decide

@[simp] theorem RelationshipType.isKnown (e : RelationshipType) : WireEnum.IsKnown e := by
  cases e <;> decide

@[simp] theorem EvidenceSource.isKnown (e : EvidenceSource) : WireEnum.IsKnown e := by
  cases e <;> decide

@[simp] theorem AuthorityValidation.isKnown (e : AuthorityValidation) : WireEnum.IsKnown e := by
  cases e <;> decide

@[simp] theorem SubjectKind.isKnown (e : SubjectKind) : WireEnum.IsKnown e := by
  cases e <;> decide

@[simp] theorem DiagnosticCode.isKnown (e : DiagnosticCode) : WireEnum.IsKnown e := by
  cases e <;> decide

/-! ## Enumerations of a request -/

instance : WireEnum PathLayer where
  names := pathLayerNames
  value := PathLayer.value
  ofValue n :=
    if n = 1 then .physical else if n = 2 then .logical else if n = 3 then .overlay else .tunnel
  value_lt e := by
    cases e with
    | undeclared raw _ => exact raw.toNat_lt
    | _ => decide
  value_ofValue := by decide
  ofValue_value e he := by
    cases e with
    | undeclared raw hraw => exact absurd he (not_isKnownEnumValue (by decide) hraw)
    | _ => rfl

instance : WireEnum PlanningMode where
  names := planningModeNames
  value := PlanningMode.value
  ofValue n := if n = 1 then .standard else .diagnosticNonCurrent
  value_lt e := by
    cases e with
    | undeclared raw _ => exact raw.toNat_lt
    | _ => decide
  value_ofValue := by decide
  ofValue_value e he := by
    cases e with
    | undeclared raw hraw => exact absurd he (not_isKnownEnumValue (by decide) hraw)
    | _ => rfl

instance : WireEnum EndpointClass where
  names := endpointClassNames
  value := EndpointClass.value
  ofValue n :=
    if n = 1 then .endpoint else if n = 2 then .nic else if n = 3 then .port
    else if n = 4 then .switchAttachment else .logicalEndpoint
  value_lt e := by
    cases e with
    | undeclared raw _ => exact raw.toNat_lt
    | _ => decide
  value_ofValue := by decide
  ofValue_value e he := by
    cases e with
    | undeclared raw hraw => exact absurd he (not_isKnownEnumValue (by decide) hraw)
    | _ => rfl

instance : WireEnum CapabilityScope where
  names := capabilityScopeNames
  value := CapabilityScope.value
  ofValue n :=
    if n = 1 then .everyNode else if n = 2 then .everyLink else if n = 3 then .everyPort
    else if n = 4 then .sourceNode else .destinationNode
  value_lt e := by
    cases e with
    | undeclared raw _ => exact raw.toNat_lt
    | _ => decide
  value_ofValue := by decide
  ofValue_value e he := by
    cases e with
    | undeclared raw hraw => exact absurd he (not_isKnownEnumValue (by decide) hraw)
    | _ => rfl

instance : WireEnum CapabilityComparator where
  names := capabilityComparatorNames
  value := CapabilityComparator.value
  ofValue n := if n = 1 then .atLeast else if n = 2 then .atMost else .equal
  value_lt e := by
    cases e with
    | undeclared raw _ => exact raw.toNat_lt
    | _ => decide
  value_ofValue := by decide
  ofValue_value e he := by
    cases e with
    | undeclared raw hraw => exact absurd he (not_isKnownEnumValue (by decide) hraw)
    | _ => rfl

instance : WireEnum TransitKind where
  names := transitKindNames
  value := TransitKind.value
  ofValue n := if n = 1 then .exact else .anyOf
  value_lt e := by
    cases e with
    | undeclared raw _ => exact raw.toNat_lt
    | _ => decide
  value_ofValue := by decide
  ofValue_value e he := by
    cases e with
    | undeclared raw hraw => exact absurd he (not_isKnownEnumValue (by decide) hraw)
    | _ => rfl

instance : WireEnum AuthorityValidationMode where
  names := authorityValidationModeNames
  value := AuthorityValidationMode.value
  ofValue n := if n = 1 then .none else if n = 2 then .bestEffort else .required
  value_lt e := by
    cases e with
    | undeclared raw _ => exact raw.toNat_lt
    | _ => decide
  value_ofValue := by decide
  ofValue_value e he := by
    cases e with
    | undeclared raw hraw => exact absurd he (not_isKnownEnumValue (by decide) hraw)
    | _ => rfl

end PathPlanner
