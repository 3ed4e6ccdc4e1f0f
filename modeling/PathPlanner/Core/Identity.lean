import Mathlib.Data.List.Lex
import Mathlib.Order.Lattice
import Mathlib.Tactic

/-!
# Identities and bounded quantities

Every planning identity is a fixed number of bytes ordered bytewise, and every planning quantity
is an unsigned integer of a fixed width whose arithmetic reports overflow instead of wrapping.
Both carry a tag type, so identities of different domains are different types.

## Main definitions

* `FixedId Tag n`: an identity of `n` bytes; all bytes zero is the reserved nil value
* `StrongUInt Tag width bound`: an unsigned integer of `width` bits with numeric bound `bound`
* `checkedAdd`, `checkedMul`: arithmetic that reports overflow

## Main results

* `checkedAdd_eq_some_iff`, `checkedMul_eq_some_iff`: on a full-width type the checked operations
  succeed exactly when the mathematical result is representable
-/

namespace PathPlanner

/-! ## Digests and identities -/

/-- The number of bytes of a digest, `kSha256Bytes`. -/
def sha256Bytes : ℕ := 32

/-- A digest. -/
structure Sha256Digest where
  bytes : Vector UInt8 32
  deriving DecidableEq

/-- The digest of an encoding that did not fit its writer. -/
def Sha256Digest.zero : Sha256Digest := ⟨Vector.replicate 32 0⟩

instance : Inhabited Sha256Digest := ⟨Sha256Digest.zero⟩

/-- `Sha256Digest::IsZero`. -/
def Sha256Digest.isZero (digest : Sha256Digest) : Bool := digest.bytes.toList.all (· == 0)

/-- The two lowercase hexadecimal digits of a byte. -/
def hexDigits (byte : UInt8) : String :=
  let digit (d : ℕ) : Char := "0123456789abcdef".toList.getD d '0'
  String.ofList [digit (byte.toNat / 16), digit (byte.toNat % 16)]

/-- `HexEncode`. -/
def hexEncode (bytes : List UInt8) : String :=
  bytes.foldl (fun text byte => text ++ hexDigits byte) ""

/-- `FixedId<Tag, N>`: an identity of `n` bytes. -/
structure FixedId (Tag : Type) (n : ℕ) where
  bytes : Vector UInt8 n

namespace FixedId

variable {Tag : Type} {n : ℕ}

/-- The reserved nil value. -/
def nil : FixedId Tag n := ⟨Vector.replicate n 0⟩

instance : Inhabited (FixedId Tag n) := ⟨nil⟩

/-- `FixedId::FromDigest`: the leading `n` bytes of a digest. -/
def fromDigest (digest : Sha256Digest) : FixedId Tag n :=
  ⟨Vector.ofFn fun i => digest.bytes.toList.getD i 0⟩

/-- `FixedId::IsValid`: some byte is not zero. -/
def isValid (id : FixedId Tag n) : Bool := id.bytes.toList.any (· != 0)

/-- `FixedId::ToString`. -/
def toString (id : FixedId Tag n) : String := hexEncode id.bytes.toList

/-- An identity of `n + 2` bytes that ends in two given bytes. -/
def tagged {n : ℕ} (a b : UInt8) : FixedId Tag (n + 2) := ⟨((Vector.replicate n 0).push a).push b⟩

/-- The sort key of an identity: its bytes, most significant first. -/
def key (id : FixedId Tag n) : List ℕ := id.bytes.toList.map UInt8.toNat

theorem ext_iff {a b : FixedId Tag n} : a = b ↔ a.bytes = b.bytes :=
  ⟨congrArg bytes, fun h => by cases a; cases b; cases h; rfl⟩

instance : DecidableEq (FixedId Tag n) := fun _ _ => decidable_of_iff _ ext_iff.symm

theorem key_injective : Function.Injective (key : FixedId Tag n → List ℕ) := by
  rintro ⟨a⟩ ⟨b⟩ h
  have hl : a.toList = b.toList :=
    List.map_injective_iff.mpr (fun _ _ e => UInt8.toNat_inj.mp e) h
  rw [Vector.toList_inj.mp hl]

/-- The bytewise order of `FixedId::operator<=>`. -/
instance : LinearOrder (FixedId Tag n) where
  le a b := a.key ≤ b.key
  lt a b := a.key < b.key
  le_refl _ := le_rfl
  le_trans _ _ _ := le_trans
  lt_iff_le_not_ge _ _ := lt_iff_le_not_ge
  le_antisymm _ _ h h' := key_injective (le_antisymm h h')
  le_total _ _ := le_total _ _
  toDecidableLE a b := inferInstanceAs (Decidable (a.key ≤ b.key))
  toDecidableEq := inferInstance
  toDecidableLT a b := inferInstanceAs (Decidable (a.key < b.key))

end FixedId

/-! ## Identity domains -/

inductive NodeIdTag
inductive LinkIdTag
inductive PortIdTag
inductive EndpointIdTag
inductive SwitchIdTag
inductive FailureDomainIdTag
inductive FailureDomainClassTag
inductive CapabilityIdTag
inductive CandidatePathIdTag
inductive PathPlanIdTag
inductive PlanningRequestIdTag
inductive ConstraintSetIdTag
inductive SnapshotIdTag
inductive PublisherIdTag
inductive WorkerBootIdTag
inductive MutationAttemptIdTag

abbrev NodeId := FixedId NodeIdTag 16
abbrev LinkId := FixedId LinkIdTag 16
abbrev PortId := FixedId PortIdTag 16
abbrev EndpointId := FixedId EndpointIdTag 16
abbrev SwitchId := FixedId SwitchIdTag 16
abbrev FailureDomainId := FixedId FailureDomainIdTag 8
abbrev FailureDomainClass := FixedId FailureDomainClassTag 8
abbrev CapabilityId := FixedId CapabilityIdTag 8
abbrev CandidatePathId := FixedId CandidatePathIdTag 16
abbrev PathPlanId := FixedId PathPlanIdTag 16
abbrev PlanningRequestId := FixedId PlanningRequestIdTag 16
abbrev ConstraintSetId := FixedId ConstraintSetIdTag 16
abbrev SnapshotId := FixedId SnapshotIdTag 16
abbrev PublisherId := FixedId PublisherIdTag 8
abbrev WorkerBootId := FixedId WorkerBootIdTag 8
abbrev MutationAttemptId := FixedId MutationAttemptIdTag 8

/-! ## Bounded quantities -/

/-- `StrongUInt<Tag, T, MaxValue>`: a value of the representation `T` of `width` bits. Only the
checked operations look at `bound`, so a value above it can exist. -/
structure StrongUInt (Tag : Type) (width bound : ℕ) where
  value : ℕ
  lt : value < 2 ^ width

namespace StrongUInt

variable {Tag : Type} {width bound : ℕ}

/-- Conversion to the representation, as `static_cast<T>`. -/
def ofNat (v : ℕ) : StrongUInt Tag width bound := ⟨v % 2 ^ width, Nat.mod_lt _ (by positivity)⟩

instance : Inhabited (StrongUInt Tag width bound) := ⟨ofNat 0⟩

theorem value_injective : Function.Injective (value : StrongUInt Tag width bound → ℕ) := by
  rintro ⟨a, _⟩ ⟨b, _⟩ h
  simpa using h

theorem ext_iff {a b : StrongUInt Tag width bound} : a = b ↔ a.value = b.value :=
  ⟨congrArg value, fun h => value_injective h⟩

instance : DecidableEq (StrongUInt Tag width bound) := fun _ _ => decidable_of_iff _ ext_iff.symm

instance : LinearOrder (StrongUInt Tag width bound) where
  le a b := a.value ≤ b.value
  lt a b := a.value < b.value
  le_refl _ := le_rfl
  le_trans _ _ _ := le_trans
  lt_iff_le_not_ge _ _ := lt_iff_le_not_ge
  le_antisymm _ _ h h' := value_injective (le_antisymm h h')
  le_total _ _ := le_total _ _
  toDecidableLE a b := inferInstanceAs (Decidable (a.value ≤ b.value))
  toDecidableEq := inferInstance
  toDecidableLT a b := inferInstanceAs (Decidable (a.value < b.value))

/-- `StrongUInt::Max`. -/
def max : StrongUInt Tag width bound := ofNat bound

/-- `StrongUInt::TryFrom`. -/
def tryFrom (v : StrongUInt Tag width bound) : Option (StrongUInt Tag width bound) :=
  if v.value > bound then none else some v

/-- `StrongUInt::ToString`: the canonical decimal form. -/
def toString (v : StrongUInt Tag width bound) : String := v.value.repr

theorem le_iff {a b : StrongUInt Tag width bound} : a ≤ b ↔ a.value ≤ b.value := Iff.rfl

theorem lt_iff {a b : StrongUInt Tag width bound} : a < b ↔ a.value < b.value := Iff.rfl

@[simp] theorem value_ofNat (v : ℕ) :
    (ofNat v : StrongUInt Tag width bound).value = v % 2 ^ width := rfl

end StrongUInt

/-- `CheckedAdd`: the sum, unless it exceeds the bound. -/
def checkedAdd {Tag : Type} {width bound : ℕ} (lhs rhs : StrongUInt Tag width bound) :
    Option (StrongUInt Tag width bound) :=
  if lhs.value > (bound + 2 ^ width - rhs.value) % 2 ^ width then none
  else StrongUInt.tryFrom (StrongUInt.ofNat (lhs.value + rhs.value))

/-- `CheckedMul`: the product, unless it exceeds the bound. -/
def checkedMul {Tag : Type} {width bound : ℕ} (lhs : StrongUInt Tag width bound) (factor : ℕ) :
    Option (StrongUInt Tag width bound) :=
  if factor ≠ 0 ∧ lhs.value > bound / factor then none
  else StrongUInt.tryFrom (StrongUInt.ofNat (lhs.value * factor))

inductive CostValueTag
inductive StaticCostTag
inductive HopCountTag
inductive CandidateRankTag
inductive EntityGenerationTag
inductive TopologyGenerationTag
inductive LinkStateGenerationTag
inductive PortGenerationTag
inductive CapabilityGenerationTag
inductive FailureDomainGenerationTag
inductive PolicyGenerationTag
inductive ConstraintGenerationTag
inductive PlanningGenerationTag
inductive PlanPublishSequenceTag
inductive FabricEpochTag
inductive CoordinatorEpochTag
inductive CapabilityValueTag

/-- `kMaxHopCount`. -/
def maxHopCount : ℕ := 65535

/-- `kMaxCandidateRank`. -/
def maxCandidateRank : ℕ := 4095

/-- A quantity that uses all 64 bits. -/
abbrev UInt64Of (Tag : Type) := StrongUInt Tag 64 (2 ^ 64 - 1)

abbrev CostValue := UInt64Of CostValueTag
abbrev StaticCost := StrongUInt StaticCostTag 32 (2 ^ 32 - 1)
abbrev HopCount := StrongUInt HopCountTag 32 maxHopCount
abbrev CandidateRank := StrongUInt CandidateRankTag 32 maxCandidateRank
abbrev EntityGeneration := UInt64Of EntityGenerationTag
abbrev TopologyGeneration := UInt64Of TopologyGenerationTag
abbrev LinkStateGeneration := UInt64Of LinkStateGenerationTag
abbrev PortGeneration := UInt64Of PortGenerationTag
abbrev CapabilityGeneration := UInt64Of CapabilityGenerationTag
abbrev FailureDomainGeneration := UInt64Of FailureDomainGenerationTag
abbrev PolicyGeneration := UInt64Of PolicyGenerationTag
abbrev ConstraintGeneration := UInt64Of ConstraintGenerationTag
abbrev PlanningGeneration := UInt64Of PlanningGenerationTag
abbrev PlanPublishSequence := UInt64Of PlanPublishSequenceTag
abbrev FabricEpoch := UInt64Of FabricEpochTag
abbrev CoordinatorEpoch := UInt64Of CoordinatorEpochTag
abbrev CapabilityValue := UInt64Of CapabilityValueTag

section FullWidth

variable {Tag : Type}

/-- The largest value of a full-width quantity. -/
theorem value_le_max (v : UInt64Of Tag) : v.value ≤ 2 ^ 64 - 1 := by
  have := v.lt
  omega

@[simp] theorem value_max : (StrongUInt.max : UInt64Of Tag).value = 2 ^ 64 - 1 := by
  simp [StrongUInt.max]

theorem le_max (v : UInt64Of Tag) : v ≤ StrongUInt.max := by
  rw [StrongUInt.le_iff, value_max]
  exact value_le_max v

/-- Every value but the largest one is below it. -/
theorem ne_max_iff {v : UInt64Of Tag} : v ≠ StrongUInt.max ↔ v.value < 2 ^ 64 - 1 := by
  have := value_le_max v
  rw [ne_eq, StrongUInt.ext_iff, value_max]
  omega

@[simp] theorem tryFrom_fullWidth (v : UInt64Of Tag) : StrongUInt.tryFrom v = some v :=
  if_neg (by have := value_le_max v; omega)

/-- **Checked addition** succeeds exactly when the sum is representable, with that sum. -/
theorem checkedAdd_eq_some_iff {a b c : UInt64Of Tag} :
    checkedAdd a b = some c ↔ a.value + b.value = c.value := by
  have ha := a.lt
  have hb := b.lt
  have hc := c.lt
  have hm : (2 ^ 64 - 1 + 2 ^ 64 - b.value) % 2 ^ 64 = 2 ^ 64 - 1 - b.value := by omega
  unfold checkedAdd
  rw [hm, tryFrom_fullWidth]
  split_ifs with h
  · simp only [false_iff]
    omega
  · rw [Option.some_inj, StrongUInt.ext_iff, StrongUInt.value_ofNat,
      Nat.mod_eq_of_lt (by omega)]

theorem checkedAdd_eq_none_iff {a b : UInt64Of Tag} :
    checkedAdd a b = none ↔ 2 ^ 64 ≤ a.value + b.value := by
  constructor
  · intro h
    by_contra hlt
    have hsum := checkedAdd_eq_some_iff (c := ⟨a.value + b.value, by omega⟩).mpr rfl
    rw [h] at hsum
    cases hsum
  · intro h
    cases hs : checkedAdd a b with
    | none => rfl
    | some c =>
      have := checkedAdd_eq_some_iff.mp hs
      have := c.lt
      omega

/-- **Checked multiplication** succeeds exactly when the product is representable, with that
product. -/
theorem checkedMul_eq_some_iff {a c : UInt64Of Tag} {factor : ℕ} :
    checkedMul a factor = some c ↔ a.value * factor = c.value := by
  have hc := c.lt
  unfold checkedMul
  rw [tryFrom_fullWidth]
  split_ifs with h
  · simp only [false_iff]
    have := (Nat.div_lt_iff_lt_mul (Nat.pos_of_ne_zero h.1)).mp h.2
    omega
  · have hle : a.value * factor ≤ 2 ^ 64 - 1 := by
      rcases Nat.eq_zero_or_pos factor with rfl | hf
      · simp
      · have : a.value ≤ (2 ^ 64 - 1) / factor := by
          by_contra hgt
          exact h ⟨hf.ne', by omega⟩
        exact (Nat.le_div_iff_mul_le hf).mp this
    rw [Option.some_inj, StrongUInt.ext_iff, StrongUInt.value_ofNat,
      Nat.mod_eq_of_lt (by omega)]

end FullWidth

end PathPlanner
