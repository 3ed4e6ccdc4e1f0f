import PathPlanner.Library.FixedWords
import PathPlanner.Snapshot.Records

/-!
# Texts of identities

An identity is written as two lowercase hexadecimal digits for each byte, and read strictly: any other
length, an uppercase digit or the nil identity is rejected. The tables of the program are keyed by
these texts and list their entries in the order of them, so what matters is that a text names one
identity and that texts are ordered as the identities are.

## Main definitions

* `hexText`: `HexEncode`, as bytes
* `hexDecodeStrict`, `FixedId.parse`, `Sha256Digest.fromHex`: the readers

## Main results

* `toUTF8_hexEncode`: the bytes of `hexEncode`
* `hexDecodeStrict_eq_some_iff`: what the strict reader accepts
* `FixedId.text_exact`: **texts name identities**, and are ordered as they are
-/

namespace PathPlanner

/-! ## The reader and the writer -/

/-- `kDigits`. -/
def hexDigitBytes : List UInt8 := "0123456789abcdef".toUTF8.data.toList

/-- The two digits of a byte. -/
def hexPair (byte : UInt8) : List UInt8 :=
  [hexDigitBytes.getD (byte.toNat / 16) 0, hexDigitBytes.getD (byte.toNat % 16) 0]

/-- `HexEncode`, as bytes. -/
def hexText (bytes : List UInt8) : List UInt8 := bytes.flatMap hexPair

/-- `IsLowerHexDigit`. -/
def isLowerHexDigit (c : UInt8) : Bool :=
  decide (48 ≤ c ∧ c ≤ 57) || decide (97 ≤ c ∧ c ≤ 102)

/-- `LowerHexValue`. -/
def lowerHexValue (c : UInt8) : ℕ := if c ≤ 57 then c.toNat - 48 else c.toNat - 97 + 10

/-- The body of the loop of `HexDecodeStrict`. -/
def hexByte (high low : UInt8) : Option UInt8 :=
  if isLowerHexDigit high = false ∨ isLowerHexDigit low = false then none
  else some (UInt8.ofNat (lowerHexValue high * 16 + lowerHexValue low))

/-- `HexDecodeStrict`, into so many bytes. -/
def hexDecodeStrict (size : ℕ) (text : List UInt8) : Option (List UInt8) :=
  if text.length ≠ size * 2 then none
  else (List.range size).mapM fun i => hexByte (text.getD (i * 2) 0) (text.getD (i * 2 + 1) 0)

/-- `FixedId::ToString`, as bytes. -/
def FixedId.toText {Tag : Type} {n : ℕ} (id : FixedId Tag n) : List UInt8 := hexText id.bytes.toList

/-- The identity of so many bytes. -/
def FixedId.ofBytes {Tag : Type} {n : ℕ} (bytes : List UInt8) : FixedId Tag n :=
  ⟨Vector.ofFn fun i => bytes.getD i 0⟩

/-- `FixedId::Parse`. -/
def FixedId.parse {Tag : Type} {n : ℕ} (text : List UInt8) : Option (FixedId Tag n) :=
  if text.length ≠ n * 2 then none
  else
    match hexDecodeStrict n text with
    | none => none
    | some bytes =>
      let id : FixedId Tag n := .ofBytes bytes
      if id.isValid then some id else none

/-- `Sha256Digest::ToHex`, as bytes. -/
def Sha256Digest.toHex (digest : Sha256Digest) : List UInt8 := hexText digest.bytes.toList

/-- `Sha256Digest::FromHex`. -/
def Sha256Digest.fromHex (text : List UInt8) : Option Sha256Digest :=
  (hexDecodeStrict sha256Bytes text).map fun bytes => ⟨Vector.ofFn fun i => bytes.getD i 0⟩

/-! ## Digits -/

/-- The digit of a value below sixteen. -/
def hexDigit (d : ℕ) : UInt8 := hexDigitBytes.getD d 0

theorem isLowerHexDigit_hexDigit {d : ℕ} (h : d < 16) :
    isLowerHexDigit (hexDigit d) = true ∧ lowerHexValue (hexDigit d) = d := by
  revert d
  decide

/-- Digits are ordered as their values. -/
theorem hexDigit_lt_hexDigit {d e : ℕ} (hd : d < 16) (he : e < 16) :
    (hexDigit d).toNat < (hexDigit e).toNat ↔ d < e := by
  have hdigits : ∀ d < 16, ∀ e < 16, (hexDigit d).toNat < (hexDigit e).toNat ↔ d < e := by
    decide
  exact hdigits d hd e he

/-- A digit is the one of its value. -/
theorem hexDigit_lowerHexValue {c : UInt8} (h : isLowerHexDigit c = true) :
    lowerHexValue c < 16 ∧ hexDigit (lowerHexValue c) = c := by
  have hdecimal : ∀ d < 10, hexDigit d = .ofNat (48 + d) := by decide
  have hletter : ∀ d < 6, hexDigit (97 + d - 97 + 10) = .ofNat (97 + d) := by decide
  have hrange : 48 ≤ c.toNat ∧ c.toNat ≤ 57 ∨ 97 ≤ c.toNat ∧ c.toNat ≤ 102 := by
    simpa [isLowerHexDigit, UInt8.le_iff_toNat_le] using h
  unfold lowerHexValue
  rcases hrange with ⟨hlow, hhigh⟩ | ⟨hlow, hhigh⟩
  · obtain ⟨d, hd⟩ := Nat.exists_eq_add_of_le hlow
    rw [if_pos (UInt8.le_iff_toNat_le.mpr hhigh), hd, Nat.add_sub_cancel_left]
    refine ⟨by omega, (hdecimal d (by omega)).trans ?_⟩
    rw [← hd, UInt8.ofNat_toNat]
  · obtain ⟨d, hd⟩ := Nat.exists_eq_add_of_le hlow
    have hnot : ¬ c.toNat ≤ 57 := by omega
    rw [if_neg (UInt8.le_iff_toNat_le.not.mpr hnot), hd]
    refine ⟨by omega, (hletter d (by omega)).trans ?_⟩
    rw [← hd, UInt8.ofNat_toNat]

/-! ## Bytes -/

theorem hexPair_eq (byte : UInt8) :
    hexPair byte = [hexDigit (byte.toNat / 16), hexDigit (byte.toNat % 16)] := rfl

theorem nibbles_lt (byte : UInt8) : byte.toNat / 16 < 16 ∧ byte.toNat % 16 < 16 := by
  have hlt := byte.toNat_lt
  omega

/-- **A byte** is what its two digits are read as, and no other digits are. -/
theorem hexByte_eq_some_iff {high low byte : UInt8} :
    hexByte high low = some byte ↔ [high, low] = hexPair byte := by
  obtain ⟨hhigh, hlow⟩ := nibbles_lt byte
  unfold hexByte
  rw [hexPair_eq]
  constructor
  · intro h
    obtain ⟨hdigits, hsome⟩ := Option.ite_none_left_eq_some.mp h
    obtain rfl := Option.some.inj hsome
    rw [not_or, Bool.not_eq_false, Bool.not_eq_false] at hdigits
    obtain ⟨hhigh', heq⟩ := hexDigit_lowerHexValue hdigits.1
    obtain ⟨hlow', heq'⟩ := hexDigit_lowerHexValue hdigits.2
    have hvalue : (UInt8.ofNat (lowerHexValue high * 16 + lowerHexValue low)).toNat =
        lowerHexValue high * 16 + lowerHexValue low := by
      rw [UInt8.toNat_ofNat']
      omega
    rw [hvalue, show (lowerHexValue high * 16 + lowerHexValue low) / 16 = lowerHexValue high by omega,
      show (lowerHexValue high * 16 + lowerHexValue low) % 16 = lowerHexValue low by omega, heq, heq']
  · intro h
    obtain ⟨rfl, hrest⟩ := List.cons.inj h
    obtain ⟨rfl, -⟩ := List.cons.inj hrest
    obtain ⟨hdigit, hvalue⟩ := isLowerHexDigit_hexDigit hhigh
    obtain ⟨hdigit', hvalue'⟩ := isLowerHexDigit_hexDigit hlow
    rw [hdigit, hdigit', hvalue, hvalue', if_neg (by decide),
      show byte.toNat / 16 * 16 + byte.toNat % 16 = byte.toNat by omega, UInt8.ofNat_toNat]

/-- The values of the bytes of a text, in whose order texts are compared. -/
def textKey (text : List UInt8) : List ℕ := text.map UInt8.toNat

theorem textKey_hexText (bytes : List UInt8) :
    textKey (hexText bytes) = bytes.flatMap fun byte => textKey (hexPair byte) :=
  List.map_flatMap ..

/-- The digits of bytes are ordered as the bytes. -/
theorem ordersWords_hexPair : FixedWords.OrdersWords (fun byte => textKey (hexPair byte)) 2 := by
  have hlt : ∀ a b : UInt8, textKey (hexPair a) < textKey (hexPair b) ↔ a < b := by
    intro a b
    obtain ⟨hhigh, hlow⟩ := nibbles_lt a
    obtain ⟨hhigh', hlow'⟩ := nibbles_lt b
    have hsame : (hexDigit (a.toNat / 16)).toNat = (hexDigit (b.toNat / 16)).toNat ↔
        a.toNat / 16 = b.toNat / 16 := by
      have hless := hexDigit_lt_hexDigit hhigh hhigh'
      have hgreater := hexDigit_lt_hexDigit hhigh' hhigh
      omega
    rw [hexPair_eq, hexPair_eq]
    unfold textKey
    simp only [List.map_cons, List.map_nil]
    rw [List.cons_lt_cons_iff, List.cons_lt_cons_iff, hexDigit_lt_hexDigit hhigh hhigh',
      hexDigit_lt_hexDigit hlow hlow', hsame, UInt8.lt_iff_toNat_lt]
    have hnil : ¬ ([] : List ℕ) < [] := List.not_lt_nil _
    simp only [hnil, and_false, or_false]
    omega
  refine ⟨by decide, fun _ => rfl, hlt, fun a b h => ?_⟩
  -- neither is before the other
  have hless := (hlt a b).not.mp (h ▸ lt_irrefl _)
  have hgreater := (hlt b a).not.mp (h ▸ lt_irrefl _)
  rw [UInt8.lt_iff_toNat_lt] at hless hgreater
  exact UInt8.toNat_inj.mp (by omega)

/-- Bytes are ordered as their values. -/
theorem ordersWords_toNat : FixedWords.OrdersWords (fun byte : UInt8 => [byte.toNat]) 1 where
  pos := Nat.one_pos
  length_eq _ := rfl
  lt_iff a b := by
    rw [List.cons_lt_cons_iff, UInt8.lt_iff_toNat_lt]
    have hnil : ¬ ([] : List ℕ) < [] := List.not_lt_nil _
    simp only [hnil, and_false, or_false]
  injective a b h := UInt8.toNat_inj.mp (List.singleton_inj.mp h)

/-- **Texts are ordered** as the bytes that they are of. -/
theorem textKey_hexText_lt_iff {bytes bytes' : List UInt8} :
    textKey (hexText bytes) < textKey (hexText bytes') ↔
      bytes.map UInt8.toNat < bytes'.map UInt8.toNat := by
  rw [textKey_hexText, textKey_hexText, ordersWords_hexPair.flatMap_lt_flatMap_iff,
    List.map_eq_flatMap, List.map_eq_flatMap, ordersWords_toNat.flatMap_lt_flatMap_iff]

theorem length_hexText (bytes : List UInt8) : (hexText bytes).length = bytes.length * 2 := by
  induction bytes with
  | nil => rfl
  | cons byte bytes ih =>
    rw [hexText, List.flatMap_cons, List.length_append, ← hexText, ih, List.length_cons]
    change 2 + bytes.length * 2 = _
    omega

/-! ## Texts -/

/-- The loop of the reader on two more digits. -/
theorem mapM_hexByte_cons {high low : UInt8} {rest : List UInt8} {size : ℕ} :
    ((List.range (size + 1)).mapM fun i => hexByte ((high :: low :: rest).getD (i * 2) 0)
        ((high :: low :: rest).getD (i * 2 + 1) 0)) =
      (hexByte high low).bind fun byte =>
        ((List.range size).mapM fun i => hexByte (rest.getD (i * 2) 0) (rest.getD (i * 2 + 1) 0)).map
          fun bytes => byte :: bytes := by
  have hshift : ∀ i, hexByte ((high :: low :: rest).getD ((i + 1) * 2) 0)
      ((high :: low :: rest).getD ((i + 1) * 2 + 1) 0) =
        hexByte (rest.getD (i * 2) 0) (rest.getD (i * 2 + 1) 0) := by
    intro i
    rw [show (i + 1) * 2 = i * 2 + 1 + 1 by ring]
    simp only [List.getD_cons_succ]
  rw [List.range_succ_eq_map, List.mapM_cons, List.mapM_map]
  simp only [Function.comp_def, Nat.succ_eq_add_one, hshift]
  simp only [Nat.zero_mul, Nat.zero_add, List.getD_cons_zero, List.getD_cons_succ,
    Option.bind_eq_bind, Option.pure_def, Option.map_eq_bind]
  rfl

/-- **The strict reader** accepts exactly the texts of so many bytes. -/
theorem hexDecodeStrict_eq_some_iff {size : ℕ} {text bytes : List UInt8} :
    hexDecodeStrict size text = some bytes ↔ bytes.length = size ∧ text = hexText bytes := by
  unfold hexDecodeStrict
  induction size generalizing text bytes with
  | zero =>
    constructor
    · intro h
      obtain ⟨hlength, hsome⟩ := Option.ite_none_left_eq_some.mp h
      obtain rfl := Option.some.inj hsome
      exact ⟨rfl, List.length_eq_zero_iff.mp (not_not.mp hlength)⟩
    · rintro ⟨hlength, rfl⟩
      obtain rfl := List.length_eq_zero_iff.mp hlength
      rfl
  | succ size ih =>
    constructor
    · intro h
      obtain ⟨hlength, hsome⟩ := Option.ite_none_left_eq_some.mp h
      rw [not_not] at hlength
      -- a text of that length begins with two digits
      obtain ⟨high, tail, rfl⟩ := List.exists_cons_of_length_pos (l := text) (by omega)
      obtain ⟨low, rest, rfl⟩ := List.exists_cons_of_length_pos (l := tail) (by
        rw [List.length_cons] at hlength
        omega)
      rw [mapM_hexByte_cons] at hsome
      obtain ⟨byte, hbyte, hrest⟩ := Option.bind_eq_some_iff.mp hsome
      obtain ⟨bytes, hbytes, rfl⟩ := Option.map_eq_some_iff.mp hrest
      rw [List.length_cons, List.length_cons] at hlength
      obtain ⟨hsize, hread⟩ := ih.mp ((if_neg (not_not.mpr (by omega))).trans hbytes)
      refine ⟨by rw [List.length_cons, hsize], ?_⟩
      have hdigits := hexByte_eq_some_iff.mp hbyte
      rw [hexText, List.flatMap_cons, ← hdigits, ← hexText, ← hread]
      rfl
    · rintro ⟨hsize, rfl⟩
      obtain ⟨byte, bytes, rfl⟩ := List.exists_cons_of_length_pos (l := bytes) (by omega)
      rw [List.length_cons] at hsize
      have hread := ih.mpr ⟨Nat.succ.inj hsize, rfl⟩
      have hlength : (hexText bytes).length = size * 2 := by
        rw [length_hexText, Nat.succ.inj hsize]
      rw [if_neg (not_not.mpr hlength)] at hread
      have hbyte := hexByte_eq_some_iff.mpr (hexPair_eq byte).symm
      have htext : hexText (byte :: bytes) =
          hexDigit (byte.toNat / 16) :: hexDigit (byte.toNat % 16) :: hexText bytes := rfl
      rw [if_neg (not_not.mpr (by rw [length_hexText, List.length_cons, hsize])), htext,
        mapM_hexByte_cons, hbyte, hread]
      rfl

/-- Texts of bytes tell the bytes apart. -/
theorem hexText_injective : Function.Injective hexText := by
  intro bytes bytes' h
  have hlength := congrArg List.length h
  rw [length_hexText, length_hexText] at hlength
  have hread : hexDecodeStrict bytes.length (hexText bytes) = some bytes :=
    hexDecodeStrict_eq_some_iff.mpr ⟨rfl, rfl⟩
  have hread' : hexDecodeStrict bytes.length (hexText bytes) = some bytes' :=
    hexDecodeStrict_eq_some_iff.mpr ⟨by omega, h⟩
  exact Option.some.inj (hread.symm.trans hread')

theorem toUTF8_append (s t : String) :
    (s ++ t).toUTF8.data.toList = s.toUTF8.data.toList ++ t.toUTF8.data.toList := by
  simp [String.toUTF8]

/-- The bytes of the digits of a byte. -/
theorem toUTF8_hexDigits (byte : UInt8) : (hexDigits byte).toUTF8.data.toList = hexPair byte := by
  have hdigit : ∀ d < 16, (String.ofList ["0123456789abcdef".toList.getD d '0']).toUTF8.data.toList =
      [hexDigit d] := by
    decide
  obtain ⟨hhigh, hlow⟩ := nibbles_lt byte
  have hsplit : ∀ a b : Char, String.ofList [a, b] = String.ofList [a] ++ String.ofList [b] := by
    intro a b
    rw [← String.ofList_append, List.singleton_append]
  unfold hexDigits
  rw [hsplit, toUTF8_append, hdigit _ hhigh, hdigit _ hlow, hexPair_eq]
  rfl

/-- **The bytes of `hexEncode`** are the ones that the reader is given. -/
theorem toUTF8_hexEncode (bytes : List UInt8) :
    (hexEncode bytes).toUTF8.data.toList = hexText bytes := by
  have hfold : ∀ text : String,
      (bytes.foldl (fun text byte => text ++ hexDigits byte) text).toUTF8.data.toList =
        text.toUTF8.data.toList ++ hexText bytes := by
    induction bytes with
    | nil => intro text; exact (List.append_nil _).symm
    | cons byte bytes ih =>
      intro text
      rw [List.foldl_cons, ih, toUTF8_append, toUTF8_hexDigits, List.append_assoc]
      rfl
  exact hfold ""

/-! ## Identities, digests and subjects -/

section Identities

variable {Tag : Type} {n : ℕ}

theorem toList_ofFn_getD {bytes : List UInt8} (h : bytes.length = n) :
    (Vector.ofFn fun i : Fin n => bytes.getD i 0).toList = bytes := by
  apply List.ext_getElem
  · simp [h]
  · intro i hi hi'
    simp [List.getD_eq_getElem?_getD, List.getElem?_eq_getElem hi']

/-- **An identity is read** from its text and from no other. -/
theorem FixedId.parse_eq_some_iff {text : List UInt8} {id : FixedId Tag n} :
    FixedId.parse text = some id ↔ id.isValid = true ∧ text = id.toText := by
  unfold FixedId.parse FixedId.toText
  constructor
  · intro h
    obtain ⟨-, h⟩ := Option.ite_none_left_eq_some.mp h
    cases hread : hexDecodeStrict n text with
    | none =>
      rw [hread] at h
      cases h
    | some bytes =>
      rw [hread] at h
      obtain ⟨hvalid, hid⟩ := Option.ite_none_right_eq_some.mp h
      obtain ⟨hlength, htext⟩ := hexDecodeStrict_eq_some_iff.mp hread
      obtain rfl := Option.some.inj hid
      exact ⟨hvalid, htext.trans (congrArg hexText (toList_ofFn_getD hlength).symm)⟩
  · rintro ⟨hvalid, rfl⟩
    have hlength : id.bytes.toList.length = n := Vector.length_toList
    have hread := hexDecodeStrict_eq_some_iff.mpr
      ⟨hlength, (rfl : hexText id.bytes.toList = _)⟩
    have hid : (FixedId.ofBytes id.bytes.toList : FixedId Tag n) = id :=
      FixedId.ext_iff.mpr (Vector.toList_inj.mp (toList_ofFn_getD hlength))
    rw [length_hexText, hlength, if_neg (not_not.mpr rfl), hread]
    change (if (FixedId.ofBytes id.bytes.toList : FixedId Tag n).isValid then _ else _) = _
    rw [hid, if_pos hvalid]

/-- **A digest is read** from its text and from no other. -/
theorem Sha256Digest.fromHex_eq_some_iff {text : List UInt8} {digest : Sha256Digest} :
    Sha256Digest.fromHex text = some digest ↔ text = digest.toHex := by
  unfold Sha256Digest.fromHex Sha256Digest.toHex
  constructor
  · intro h
    obtain ⟨bytes, hread, rfl⟩ := Option.map_eq_some_iff.mp h
    obtain ⟨hlength, htext⟩ := hexDecodeStrict_eq_some_iff.mp hread
    exact htext.trans (congrArg hexText (toList_ofFn_getD hlength).symm)
  · rintro rfl
    have hlength : digest.bytes.toList.length = sha256Bytes := Vector.length_toList
    rw [hexDecodeStrict_eq_some_iff.mpr ⟨hlength, rfl⟩, Option.map_some]
    exact congrArg (fun bytes => some (Sha256Digest.mk bytes))
      (Vector.toList_inj.mp (toList_ofFn_getD hlength))

/-- The texts of subjects tell the subjects apart, also subjects of two kinds. -/
theorem SubjectKey.toString_injective : Function.Injective SubjectKey.toString := by
  intro a b h
  have hname : ∀ kind : SubjectKind,
      (enumName subjectKindNames kind.value).toUTF8.data.toList.length = 4 := by
    intro kind
    cases kind <;> decide
  have hnames : ∀ kind kind' : SubjectKind, (enumName subjectKindNames kind.value).toUTF8.data.toList =
      (enumName subjectKindNames kind'.value).toUTF8.data.toList → kind = kind' := by
    intro kind kind'
    cases kind <;> cases kind' <;> decide
  have hbytes := congrArg (fun text : String => text.toUTF8.data.toList) h
  simp only [SubjectKey.toString, toUTF8_append, toUTF8_hexEncode, List.append_assoc] at hbytes
  -- the names of all kinds are of one length
  obtain ⟨hkind, hrest⟩ := List.append_inj hbytes ((hname _).trans (hname _).symm)
  obtain ⟨-, htext⟩ := List.append_inj hrest rfl
  have hid := Vector.toList_inj.mp (hexText_injective htext)
  obtain ⟨kind, bytes⟩ := a
  obtain ⟨kind', bytes'⟩ := b
  obtain rfl : kind = kind' := hnames _ _ hkind
  obtain rfl : bytes = bytes' := hid
  rfl

/-- **Texts name identities.** The bytes of an identity that is not nil are read from its text and
from no other, a digest likewise; the text is the one that is written; texts are ordered as the
identities are; and no two subjects, of one kind or of two, have one text. Tables that are keyed by
texts are therefore tables of identities, and list them in their order. -/
theorem FixedId.text_exact (Tag : Type) (n : ℕ) :
    (∀ (text : List UInt8) (id : FixedId Tag n),
      FixedId.parse text = some id ↔ id.isValid = true ∧ text = id.toString.toUTF8.data.toList) ∧
    (∀ (text : List UInt8) (digest : Sha256Digest),
      Sha256Digest.fromHex text = some digest ↔ text = digest.toHex) ∧
    (∀ a b : FixedId Tag n, textKey a.toString.toUTF8.data.toList <
      textKey b.toString.toUTF8.data.toList ↔ a < b) ∧
    Function.Injective SubjectKey.toString := by
  have hbytes : ∀ id : FixedId Tag n, id.toString.toUTF8.data.toList = id.toText :=
    fun id => toUTF8_hexEncode _
  refine ⟨?_, fun _ _ => Sha256Digest.fromHex_eq_some_iff, ?_, SubjectKey.toString_injective⟩
  · intro text id
    rw [hbytes]
    exact FixedId.parse_eq_some_iff
  · intro a b
    rw [hbytes, hbytes]
    exact textKey_hexText_lt_iff

end Identities

end PathPlanner
