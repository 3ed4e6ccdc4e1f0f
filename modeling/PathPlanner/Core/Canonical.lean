import PathPlanner.Core.Identity

/-!
# Canonical encoding

The canonical encodings behind digests and identities are written by a `ByteWriter` under a byte
ceiling. Once a write does not fit, the writer is overflowed and every later write is ignored.

## Main definitions

* `ByteWriter`: the bytes written so far, the ceiling and the overflow flag
* `ByteWriter.u16`, `ByteWriter.u32`, `ByteWriter.u64`, `ByteWriter.varU64`, `ByteWriter.fixedBytes`,
  `ByteWriter.text`, `ByteWriter.bool`: the primitive writes
-/

namespace PathPlanner

/-- `kPathEncodingVersion`. -/
def pathEncodingVersion : ℕ := 1

/-- `kPlanDigestSchemeVersion`. -/
def planDigestSchemeVersion : ℕ := 1

/-- `kPlanningRuleVersion`. -/
def planningRuleVersion : ℕ := 1

/-- `ByteWriter`. -/
structure ByteWriter where
  data : List UInt8
  ceiling : ℕ
  overflowed : Bool

namespace ByteWriter

/-- A writer with nothing written. -/
def new (ceiling : ℕ) : ByteWriter := ⟨[], ceiling, false⟩

/-- `ByteWriter::PutByte`. -/
def putByte (w : ByteWriter) (value : UInt8) : ByteWriter :=
  if w.overflowed then w
  else if w.data.length + 1 > w.ceiling then { w with overflowed := true }
  else { w with data := w.data ++ [value] }

/-- `ByteWriter::Put`. -/
def put (w : ByteWriter) (value : List UInt8) : ByteWriter :=
  if w.overflowed then w
  else if value.length > w.ceiling - w.data.length then { w with overflowed := true }
  else { w with data := w.data ++ value }

/-- The `count` low bytes of a value, least significant first, one at a time. -/
def putLittleEndian (w : ByteWriter) (count value : ℕ) : ByteWriter :=
  (List.range count).foldl (fun w i => w.putByte (UInt8.ofNat (value / 2 ^ (8 * i) % 256))) w

/-- `ByteWriter::U16`. -/
def u16 (w : ByteWriter) (value : ℕ) : ByteWriter := w.putLittleEndian 2 value

/-- `ByteWriter::U32`. -/
def u32 (w : ByteWriter) (value : ℕ) : ByteWriter := w.putLittleEndian 4 value

/-- `ByteWriter::U64`. -/
def u64 (w : ByteWriter) (value : ℕ) : ByteWriter := w.putLittleEndian 8 value

/-- The loop of `VarU64` with at most `rounds` continued groups. -/
def putGroups (w : ByteWriter) (value : ℕ) : ℕ → ByteWriter
  | 0 => w.putByte (UInt8.ofNat value)
  | rounds + 1 =>
    if value ≥ 0x80 then
      (w.putByte (UInt8.ofNat (value % 0x80 + 0x80))).putGroups (value / 0x80) rounds
    else w.putByte (UInt8.ofNat value)

/-- `ByteWriter::VarU64`: groups of seven bits, least significant first. -/
def varU64 (w : ByteWriter) (value : ℕ) : ByteWriter := w.putGroups value 9

/-- `ByteWriter::FixedBytes`. -/
def fixedBytes (w : ByteWriter) (value : List UInt8) : ByteWriter := w.put value

/-- The bytes of an identity. -/
def id {Tag : Type} {n : ℕ} (w : ByteWriter) (value : FixedId Tag n) : ByteWriter :=
  w.fixedBytes value.bytes.toList

/-- `ByteWriter::Text`: the bytes of a text behind their number. -/
def text (w : ByteWriter) (value : List UInt8) : ByteWriter := (w.varU64 value.length).put value

/-- `ByteWriter::Bool`. -/
def bool (w : ByteWriter) (value : Bool) : ByteWriter := w.putByte (if value then 1 else 0)

end ByteWriter

end PathPlanner
