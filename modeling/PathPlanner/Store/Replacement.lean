import PathPlanner.Library.FileSystem
import PathPlanner.Library.Run
import PathPlanner.Store.Ceiling

/-!
# Replacing the file of a plan store

A save writes its image into a temporary file next to the destination and then renames it. The
process may be lost at any point, operations on files may fail, and loads read the destination buffer
by buffer meanwhile. As long as saves do not overlap, the destination holds a whole image: all calls share
one temporary file, so a save that begins during another one truncates what that is about to rename.

## Main definitions

* `StoreWriter`, `StoreLoader`: the calls of `SavePlanStore` and `LoadPlanStore`
* `StoreFiles`: a file system with the calls on one path
* `StoreFiles.KeepsApart`: no save begins while another one is in progress
* `StoreFiles.lastSaved`: the image of the last save that succeeded, or the file before

## Main results

* `StoreWriter.keeps_of_next`: what an operation of a save does to the files
* `StoreFiles.IsSound.step`: the step lemma, the destination holds the image that was saved last
* `StoreFiles.isApart_step`: a file that is not the temporary one stays as it is
-/

namespace PathPlanner

open Decoder Run

/-! ## Calls -/

/-- `TempPathFor`. -/
def tempPathFor (path : String) : String := path ++ ".tmp"

theorem tempPathFor_ne (path : String) : tempPathFor path ≠ path := by
  intro h
  have hlength := congrArg String.length h
  unfold tempPathFor at hlength
  rw [String.length_append] at hlength
  exact absurd hlength (Nat.ne_of_gt (Nat.lt_add_of_pos_right (by decide)))

/-- How an operation on a file ends: as it should, after so many bytes, or with an error. -/
inductive FileEvent
  | done
  | moved (count : ℕ)
  | fails

/-- Where `SavePlanStore` stands. -/
inductive WriterPhase
  /-- The temporary file is opened. -/
  | opening
  /-- So many bytes of the image are written. -/
  | writing (file : ℕ) (written : ℕ)
  /-- The stream is closed, and the file is renamed. -/
  | replacing
  /-- The temporary file is removed. -/
  | removing
  | saved
  | failed (failure : StoreFailure)
  /-- The process was lost. -/
  | lost

/-- The call has returned, or is lost. -/
def WriterPhase.isOver : WriterPhase → Bool
  | saved | failed _ | lost => true
  | _ => false

/-- The call has returned `Success`. -/
def WriterPhase.isSaved : WriterPhase → Bool
  | saved => true
  | _ => false

/-- A call of `SavePlanStore`. -/
structure StoreWriter where
  records : List StoredPlanRecord
  options : StoreOptions
  phase : WriterPhase

/-- Where `LoadPlanStore` stands. -/
inductive StoreLoader
  | opening (limits : ResourceLimits)
  | reading (limits : ResourceLimits) (file : ℕ) (image : List UInt8)
  | returned (limits : ResourceLimits) (outcome : Option (StoreResult × List StoredPlanRecord))
  | lost

/-- The call, when the process is lost. -/
def StoreWriter.crash (w : StoreWriter) : StoreWriter :=
  if w.phase.isOver then w else { w with phase := .lost }

@[inherit_doc StoreWriter.crash]
def StoreLoader.crash : StoreLoader → StoreLoader
  | returned limits outcome => returned limits outcome
  | _ => lost

/-- A file system with the calls on one path. -/
structure StoreFiles where
  files : FileSystem String UInt8
  writers : List StoreWriter := []
  loaders : List StoreLoader := []

/-- What a process does with the store, or what happens to it. -/
inductive StoreFileAction
  | save (records : List StoredPlanRecord) (options : StoreOptions)
  | write (index : ℕ) (event : FileEvent)
  | load (limits : ResourceLimits)
  | read (index : ℕ) (event : FileEvent)
  | crash

section System

variable (sha : List UInt8 → Sha256Digest) (path : String)

/-- The image that the call writes. -/
def StoreWriter.image (w : StoreWriter) : List UInt8 :=
  (encodePlanStore sha w.records w.options []).2

/-- `SavePlanStore` up to the first operation on a file. -/
def StoreWriter.start (records : List StoredPlanRecord) (options : StoreOptions) : StoreWriter :=
  { records, options
    phase :=
      if path.isEmpty then .failed (persistenceCorrupt "store path is empty")
      else
        let encoded := (encodePlanStore sha records options []).1
        if encoded.ok then .opening else .failed ⟨encoded.code, encoded.detail⟩ }

/-- The next operation of `SavePlanStore`, with the calls of `ReplaceFile` and `std::remove`. -/
def StoreWriter.next (w : StoreWriter) (files : FileSystem String UInt8) :
    FileEvent → Option (StoreWriter × FileSystem String UInt8)
  | .done =>
    match w.phase with
    | .opening =>
      let opened := files.truncated (tempPathFor path)
      some ({ w with phase := .writing opened.1 0 }, opened.2)
    | .writing _ written =>
      -- the stream is good after it is flushed
      if (w.image sha).length ≤ written then some ({ w with phase := .replacing }, files) else none
    | .replacing =>
      match files.rename (tempPathFor path) path with
      | some files' => some ({ w with phase := .saved }, files')
      | none => some ({ w with phase := .removing }, files)
    | .removing =>
      some ({ w with phase := .failed (persistenceCorrupt "atomic replacement failed") },
        files.remove (tempPathFor path))
    | _ => none
  | .moved count =>
    match w.phase with
    | .writing file written =>
      some ({ w with phase := .writing file (written + count) },
        files.append file (((w.image sha).drop written).take count))
    | _ => none
  | .fails =>
    match w.phase with
    | .opening =>
      some ({ w with
        phase := .failed (persistenceCorrupt "cannot open the temporary store file") }, files)
    | .writing _ _ =>
      some ({ w with
        phase := .failed (persistenceCorrupt "cannot write the temporary store file") }, files)
    | .replacing => some ({ w with phase := .removing }, files)
    -- the result of `std::remove` is not looked at
    | .removing =>
      some ({ w with phase := .failed (persistenceCorrupt "atomic replacement failed") }, files)
    | _ => none

/-- What `LoadPlanStore` returns for the content of a file, or none when it cannot be opened. -/
def loadedFrom (limits : ResourceLimits) (content : Option (List UInt8)) :
    Option (StoreResult × List StoredPlanRecord) :=
  loadPlanStoreFile sha path limits (content.map fun image => [image]) []

/-- The next operation of `LoadPlanStore`. -/
def StoreLoader.next (files : FileSystem String UInt8) :
    StoreLoader → FileEvent → Option StoreLoader
  | opening limits, .done =>
    match files.names path with
    | some file => some (reading limits file [])
    | none => some (returned limits (loadedFrom sha path limits none))
  | opening limits, .fails => some (returned limits (loadedFrom sha path limits none))
  | reading limits file image, .moved count =>
    let buffer := ((files.contents file).drop image.length).take count
    if image.length + buffer.length > loadCeiling limits then
      some (returned limits (some (withOutput [] (.error
        ⟨.persistenceLimitExceeded, "store image exceeds the configured ceiling"⟩))))
    else some (reading limits file (image ++ buffer))
  | reading limits file image, .done =>
    if (files.contents file).length ≤ image.length then
      some (returned limits (decodePlanStore sha limits image []))
    else none
  -- the loop ends, and what was read is decoded
  | reading limits _ image, .fails => some (returned limits (decodePlanStore sha limits image []))
  | _, _ => none

namespace StoreFiles

/-- One operation. -/
def step (s : StoreFiles) : StoreFileAction → Option StoreFiles
  | .save records options =>
    some { s with writers := s.writers ++ [.start sha path records options] }
  | .write index event =>
    s.writers[index]?.bind fun w => (w.next sha path s.files event).map fun next =>
      { s with files := next.2, writers := s.writers.set index next.1 }
  | .load limits =>
    some { s with
      loaders := s.loaders ++ [
        if path.isEmpty then .returned limits (loadedFrom sha path limits none)
        else .opening limits] }
  | .read index event =>
    s.loaders[index]?.bind fun loader => (loader.next sha path s.files event).map fun next =>
      { s with loaders := s.loaders.set index next }
  | .crash =>
    some { s with
      writers := s.writers.map StoreWriter.crash
      loaders := s.loaders.map StoreLoader.crash }

/-- **The operation keeps saves apart**: no save begins while another one is in progress. -/
def KeepsApart (s : StoreFiles) : StoreFileAction → Prop
  | .save _ _ => ∀ w ∈ s.writers, w.phase.isOver = true
  | _ => True

instance (s : StoreFiles) (action : StoreFileAction) : Decidable (s.KeepsApart action) :=
  match action with
  | .save _ _ => inferInstanceAs (Decidable (∀ w ∈ s.writers, w.phase.isOver = true))
  | .write _ _ | .load _ | .read _ _ | .crash => isTrue trivial

/-- The image of the last save that succeeded, or the file before any save. -/
def lastSaved (initial : Option (List UInt8)) (s : StoreFiles) : Option (List UInt8) :=
  ((s.writers.filter fun w => w.phase.isSaved).getLast?.map (·.image sha)).or initial

end StoreFiles

/-! ## Images -/

/-- The content is one that a save writes. -/
def IsStoreImage (content : List UInt8) : Prop :=
  ∃ sequence records, content = storeImage sha sequence records ∧ content.length < 2 ^ 64

variable {sha path}

/-- The header tells how long an image is. -/
theorem length_le_of_prefix_storeImage {sequence sequence' : PlanPublishSequence}
    {records records' : List StoredPlanRecord}
    (hlength : (storeImage sha sequence records).length < 2 ^ 64)
    (h : storeImage sha sequence' records' <+: storeImage sha sequence records) :
    (storeImage sha sequence records).length ≤ (storeImage sha sequence' records').length := by
  have hsize := length_storeImage sha sequence records
  have hsize' := length_storeImage sha sequence' records'
  have hle := h.length_le
  -- both begin with the same header
  have htake : (storeImage sha sequence' records').take storeHeaderBytes =
      (storeImage sha sequence records).take storeHeaderBytes := by
    conv_lhs => rw [List.prefix_iff_eq_take.mp h]
    rw [List.take_take, Nat.min_eq_left (by omega)]
  rw [(take_drop_storeImage sha sequence records).1,
    (take_drop_storeImage sha sequence' records').1] at htake
  unfold storeHeader at htake
  have hword := List.append_inj_right' htake (by rw [length_littleEndian, length_littleEndian])
  have hpayload := congrArg ByteReader.ofLittleEndian hword
  rw [ByteReader.ofLittleEndian_littleEndian (by omega),
    ByteReader.ofLittleEndian_littleEndian (by omega)] at hpayload
  omega

/-- **A part of an image** is not accepted. -/
theorem decodePlanStore_of_prefix {limits : ResourceLimits} {content image : List UInt8}
    (hcontent : IsStoreImage sha content) (h : image <+: content) (hne : image ≠ content) :
    ∃ failure, decodePlanStore sha limits image [] = some (withOutput [] (.error failure)) := by
  obtain ⟨sequence, records, rfl, hlength⟩ := hcontent
  unfold decodePlanStore
  cases hdecode : decodeImage sha limits image with
  | error stop =>
    cases stop with
    | fault => exact absurd hdecode (decodeImage_ne_fault sha limits image)
    | refused failure => exact ⟨failure, rfl⟩
  | ok records' =>
    -- what is accepted is an image, and as long as its header says
    obtain ⟨-, sequence', rfl, -⟩ := (decodeImage_eq_ok_iff sha limits).mp hdecode
    exact absurd (h.eq_of_length_le (length_le_of_prefix_storeImage hlength h)) hne

/-- What a save writes is an image. -/
theorem StoreWriter.isStoreImage_image {w : StoreWriter}
    (h : (encodePlanStore sha w.records w.options []).1.ok = true) :
    IsStoreImage sha (w.image sha) := by
  unfold StoreWriter.image encodePlanStore at *
  cases hencode : encodeImage sha w.records w.options with
  | error failure =>
    rw [hencode] at h
    cases h
  | ok image =>
    obtain ⟨-, -, -, hle, rfl⟩ := encodeImage_eq_ok_iff.mp hencode
    refine ⟨_, _, rfl, ?_⟩
    have hceiling : storePayloadCeiling w.options.limits < 2 ^ 32 := UInt32.toNat_lt _
    change (storeImage sha w.options.publishSequence w.records).length < 2 ^ 64
    rw [length_storeImage]
    simp only [storeHeaderBytes, storeDigestBytes, sha256Bytes]
    omega

/-! ## The invariant -/

/-- What is under the temporary name while a save writes and renames it. -/
def StoreWriter.Holds (sha : List UInt8 → Sha256Digest) (path : String)
    (files : FileSystem String UInt8) (w : StoreWriter) : Prop :=
  match w.phase with
  | .writing file written =>
    files.names (tempPathFor path) = some file ∧ files.contents file = (w.image sha).take written
  | .replacing => files.content (tempPathFor path) = some (w.image sha)
  | _ => True

/-- The file is not the temporary one, nor one that will be created. -/
def IsApart (path : String) (files : FileSystem String UInt8) (file : ℕ) : Prop :=
  file < files.next ∧ files.names (tempPathFor path) ≠ some file

/-- What an operation of a save does to the files: the destination changes only when the save
succeeds, and then to its image; a file that is apart stays as it is. -/
structure StoreWriter.Keeps (sha : List UInt8 → Sha256Digest) (path : String)
    (files files' : FileSystem String UInt8) (w w' : StoreWriter) : Prop where
  inProgress : w.phase.isOver = false
  records_eq : w'.records = w.records
  options_eq : w'.options = w.options
  holds : w'.Holds sha path files'
  content : files'.content path = if w'.phase.isSaved then some (w.image sha)
    else files.content path
  apart : ∀ file, IsApart path files file →
    IsApart path files' file ∧ files'.contents file = files.contents file

theorem StoreWriter.holds_of_isOver {w : StoreWriter} (h : w.phase.isOver = true)
    (files : FileSystem String UInt8) : w.Holds sha path files := by
  unfold Holds
  split
  · next hphase =>
    rw [hphase] at h
    cases h
  · next hphase =>
    rw [hphase] at h
    cases h
  · trivial

section Writer

variable {files files' : FileSystem String UInt8} {w w' : StoreWriter} {event : FileEvent}

/-- Only the phase changes. -/
theorem StoreWriter.Keeps.of_phase {phase : WriterPhase} (hover : w.phase.isOver = false)
    (hphase : ∀ file written, phase ≠ .writing file written) (hreplacing : phase ≠ .replacing)
    (hsaved : phase.isSaved = false) : w.Keeps sha path files files { w with phase } where
  inProgress := hover
  records_eq := rfl
  options_eq := rfl
  holds := by
    unfold Holds
    split
    · next hwriting => exact absurd hwriting (hphase _ _)
    · next hreplacing' => exact absurd hreplacing' hreplacing
    · trivial
  content := by
    dsimp only
    rw [hsaved]
    rfl
  apart file h := ⟨h, rfl⟩

/-- The temporary file is opened: another file never becomes that one. -/
theorem StoreWriter.Keeps.opened (hphase : w.phase = .opening) :
    w.Keeps sha path files (files.truncated (tempPathFor path)).2
      { w with phase := .writing (files.truncated (tempPathFor path)).1 0 } where
  inProgress := by rw [hphase]; rfl
  records_eq := rfl
  options_eq := rfl
  holds := ⟨files.names_truncated _, files.contents_truncated _⟩
  content := FileSystem.content_truncated_of_ne (tempPathFor_ne path).symm
  apart file h := by
    obtain ⟨hlt, hne⟩ := h
    refine ⟨⟨hlt.trans_le (files.next_le_truncated _), ?_⟩,
      FileSystem.contents_truncated_of_ne hne hlt⟩
    rw [files.names_truncated]
    intro hsame
    obtain rfl := Option.some.inj hsame
    -- the file that is opened was under the temporary name, or is new
    unfold FileSystem.truncated at hlt hne
    split at hlt
    · next hfound => exact hne (by rw [hfound])
    · exact absurd hlt (Nat.lt_irrefl _)

theorem StoreWriter.Keeps.appended {file written : ℕ} (hphase : w.phase = .writing file written)
    (hholds : w.Holds sha path files) (count : ℕ) :
    w.Keeps sha path files (files.append file (((w.image sha).drop written).take count))
      { w with phase := .writing file (written + count) } := by
  unfold Holds at hholds
  rw [hphase] at hholds
  obtain ⟨hname, hcontents⟩ := hholds
  exact
    { inProgress := by rw [hphase]; rfl
      records_eq := rfl
      options_eq := rfl
      holds := by
        refine ⟨hname, ?_⟩
        rw [FileSystem.contents_append, hcontents, ← List.take_add]
        rfl
      content := FileSystem.content_append_of_ne (tempPathFor_ne path).symm hname _
      apart := fun other h => by
        refine ⟨h, FileSystem.contents_append_of_ne ?_ _⟩
        rintro rfl
        exact h.2 hname }

theorem StoreWriter.Keeps.closed {file written : ℕ} (hphase : w.phase = .writing file written)
    (hholds : w.Holds sha path files) (hwritten : (w.image sha).length ≤ written) :
    w.Keeps sha path files files { w with phase := .replacing } := by
  unfold Holds at hholds
  rw [hphase] at hholds
  obtain ⟨hname, hcontents⟩ := hholds
  exact
    { inProgress := by rw [hphase]; rfl
      records_eq := rfl
      options_eq := rfl
      holds := by
        change files.content (tempPathFor path) = some (w.image sha)
        unfold FileSystem.content
        rw [hname, Option.map_some, hcontents, List.take_of_length_le hwritten]
      content := rfl
      apart := fun other h => ⟨h, rfl⟩ }

/-- The renamed file is the whole image. -/
theorem StoreWriter.Keeps.renamed (hphase : w.phase = .replacing) (hholds : w.Holds sha path files)
    (hrename : files.rename (tempPathFor path) path = some files') :
    w.Keeps sha path files files' { w with phase := .saved } := by
  unfold Holds at hholds
  rw [hphase] at hholds
  obtain ⟨-, -, -, hcontents, hnext⟩ := FileSystem.rename_eq_some hrename
  exact
    { inProgress := by rw [hphase]; rfl
      records_eq := rfl
      options_eq := rfl
      holds := trivial
      content := (FileSystem.content_rename hrename).trans hholds
      apart := fun other h => by
        refine ⟨⟨hnext ▸ h.1, ?_⟩, congrFun hcontents other⟩
        rw [FileSystem.names_rename_source hrename (tempPathFor_ne path)]
        exact (Option.some_ne_none other).symm }

theorem StoreWriter.Keeps.removed (hphase : w.phase = .removing) (failure : StoreFailure) :
    w.Keeps sha path files (files.remove (tempPathFor path))
      { w with phase := .failed failure } where
  inProgress := by rw [hphase]; rfl
  records_eq := rfl
  options_eq := rfl
  holds := trivial
  content := FileSystem.content_remove_of_ne (tempPathFor_ne path).symm
  apart other h := by
    refine ⟨⟨h.1, ?_⟩, rfl⟩
    rw [FileSystem.names_remove]
    exact (Option.some_ne_none other).symm

/-- **What an operation of a save does** to the files. -/
theorem StoreWriter.keeps_of_next (hholds : w.Holds sha path files)
    (h : w.next sha path files event = some (w', files')) : w.Keeps sha path files files' w' := by
  unfold next at h
  cases event with
  | done =>
    cases hphase : w.phase with
    | opening =>
      rw [hphase] at h
      obtain ⟨rfl, rfl⟩ := Prod.mk.inj (Option.some.inj h)
      exact .opened hphase
    | writing file written =>
      rw [hphase] at h
      obtain ⟨hwritten, hsome⟩ := Option.ite_none_right_eq_some.mp h
      obtain ⟨rfl, rfl⟩ := Prod.mk.inj (Option.some.inj hsome)
      exact .closed hphase hholds hwritten
    | replacing =>
      rw [hphase] at h
      dsimp only at h
      split at h
      · next hrename =>
        obtain ⟨rfl, rfl⟩ := Prod.mk.inj (Option.some.inj h)
        exact .renamed hphase hholds hrename
      · obtain ⟨rfl, rfl⟩ := Prod.mk.inj (Option.some.inj h)
        apply Keeps.of_phase (by rw [hphase]; rfl) <;> simp [WriterPhase.isSaved]
    | removing =>
      rw [hphase] at h
      obtain ⟨rfl, rfl⟩ := Prod.mk.inj (Option.some.inj h)
      exact .removed hphase _
    | saved | failed failure | lost =>
      rw [hphase] at h
      cases h
  | moved count =>
    cases hphase : w.phase with
    | writing file written =>
      rw [hphase] at h
      obtain ⟨rfl, rfl⟩ := Prod.mk.inj (Option.some.inj h)
      exact .appended hphase hholds count
    | opening | replacing | removing | saved | failed failure | lost =>
      rw [hphase] at h
      cases h
  | fails =>
    cases hphase : w.phase with
    | opening | writing file written | replacing | removing =>
      rw [hphase] at h
      obtain ⟨rfl, rfl⟩ := Prod.mk.inj (Option.some.inj h)
      apply Keeps.of_phase (by rw [hphase]; rfl) <;> simp [WriterPhase.isSaved]
    | saved | failed failure | lost =>
      rw [hphase] at h
      cases h

end Writer

namespace StoreFiles

variable {initial : Option (List UInt8)} {s s' : StoreFiles} {action : StoreFileAction}

/-- **The destination holds what was saved last**, an image or the file before any save, and only the
last save is in progress. -/
structure IsSound (sha : List UInt8 → Sha256Digest) (path : String) (initial : Option (List UInt8))
    (s : StoreFiles) : Prop where
  last : ∀ (index : ℕ) (w : StoreWriter), s.writers[index]? = some w → w.phase.isOver = false →
    index + 1 = s.writers.length
  encoded : ∀ (index : ℕ) (w : StoreWriter), s.writers[index]? = some w → w.phase.isOver = false →
    (encodePlanStore sha w.records w.options []).1.ok = true
  holds : ∀ (index : ℕ) (w : StoreWriter), s.writers[index]? = some w → w.Holds sha path s.files
  stored : s.files.content path = s.lastSaved sha initial
  origin : ∀ content, s.files.content path = some content →
    IsStoreImage sha content ∨ initial = some content

/-- The call does not change what is saved. -/
theorem lastSaved_append {w : StoreWriter} (hw : w.phase.isSaved = false) (ws : List StoreWriter)
    (files : FileSystem String UInt8) (loaders : List StoreLoader) :
    lastSaved sha initial ⟨files, ws ++ [w], loaders⟩ =
      lastSaved sha initial ⟨files, ws, loaders⟩ := by
  unfold lastSaved
  simp [List.filter_append, hw]

/-- A save that succeeds is the last one. -/
theorem lastSaved_append_saved {w : StoreWriter} (hw : w.phase.isSaved = true)
    (ws : List StoreWriter) (files : FileSystem String UInt8) (loaders : List StoreLoader) :
    lastSaved sha initial ⟨files, ws ++ [w], loaders⟩ = some (w.image sha) := by
  unfold lastSaved
  simp [List.filter_append, hw]

theorem isSaved_eq_false {phase : WriterPhase} (h : phase.isOver = false) :
    phase.isSaved = false := by
  cases phase with
  | saved => cases h
  | _ => rfl

theorem isSaved_start (records : List StoredPlanRecord) (options : StoreOptions) :
    (StoreWriter.start sha path records options).phase.isSaved = false := by
  unfold StoreWriter.start
  dsimp only
  split_ifs <;> rfl

/-- A save that begins when no other one is in progress. -/
theorem IsSound.save (h : s.IsSound sha path initial) {records : List StoredPlanRecord}
    {options : StoreOptions} (hapart : s.KeepsApart (.save records options)) :
    IsSound sha path initial
      { s with writers := s.writers ++ [.start sha path records options] } where
  last index w hw hover := by
    rw [List.getElem?_append] at hw
    split_ifs at hw with hlt
    · have hidle := hapart w (List.mem_of_getElem? hw)
      rw [hover] at hidle
      cases hidle
    · rw [List.getElem?_singleton] at hw
      split_ifs at hw
      rw [List.length_append, List.length_singleton]
      omega
  encoded index w hw hover := by
    rw [List.getElem?_append] at hw
    split_ifs at hw
    · exact h.encoded index w hw hover
    · rw [List.getElem?_singleton] at hw
      split_ifs at hw
      obtain rfl := Option.some.inj hw
      unfold StoreWriter.start at hover ⊢
      dsimp only at hover ⊢
      split_ifs at hover with hpath hok
      · cases hover
      · exact hok
      · cases hover
  holds index w hw := by
    rw [List.getElem?_append] at hw
    split_ifs at hw
    · exact h.holds index w hw
    · rw [List.getElem?_singleton] at hw
      split_ifs at hw
      obtain rfl := Option.some.inj hw
      unfold StoreWriter.Holds StoreWriter.start
      dsimp only
      split_ifs <;> trivial
  stored := by
    rw [lastSaved_append (isSaved_start records options)]
    exact h.stored
  origin := h.origin

/-- An operation of a save. -/
theorem IsSound.write (h : s.IsSound sha path initial) {index : ℕ} {w w' : StoreWriter}
    {files' : FileSystem String UInt8} (hw : s.writers[index]? = some w)
    (hkeeps : w.Keeps sha path s.files files' w') :
    IsSound sha path initial { s with files := files', writers := s.writers.set index w' } := by
  have hlast := h.last index w hw hkeeps.inProgress
  have hlt := (List.getElem?_eq_some_iff.mp hw).1
  have himage : w'.image sha = w.image sha := by
    unfold StoreWriter.image
    rw [hkeeps.records_eq, hkeeps.options_eq]
  -- every other save is over
  have hover : ∀ (other : ℕ) (u : StoreWriter), other ≠ index → (s.writers.set index w')[other]? = some u →
      u.phase.isOver = true := by
    intro other u hne hu
    rw [List.getElem?_set_ne hne.symm] at hu
    refine Bool.eq_true_of_not_eq_false fun hu' => hne ?_
    have hother := h.last other u hu hu'
    omega
  have hself : ∀ u, (s.writers.set index w')[index]? = some u → u = w' := by
    intro u hu
    rw [List.getElem?_set_self hlt] at hu
    exact (Option.some.inj hu).symm
  have hstored : files'.content path =
      lastSaved sha initial ⟨files', s.writers.set index w', s.loaders⟩ := by
    obtain ⟨ws, u, hws⟩ : ∃ ws u, s.writers = ws ++ [u] :=
      ⟨_, _, (List.dropLast_append_getLast (List.ne_nil_of_length_pos (by omega))).symm⟩
    have hindex : index = ws.length := by
      rw [hws, List.length_append, List.length_singleton] at hlast
      omega
    obtain rfl : u = w := by
      rw [hws, hindex, List.getElem?_concat_length] at hw
      exact Option.some.inj hw
    have hbefore := h.stored
    rw [show s = ⟨s.files, s.writers, s.loaders⟩ from rfl, hws,
      lastSaved_append (isSaved_eq_false hkeeps.inProgress)] at hbefore
    rw [hkeeps.content, hws, hindex, List.set_append_right _ _ (Nat.le_refl _), Nat.sub_self]
    change _ = lastSaved sha initial ⟨files', ws ++ [w'], s.loaders⟩
    by_cases hsaved : w'.phase.isSaved = true
    · rw [if_pos hsaved, lastSaved_append_saved hsaved, himage]
    · rw [if_neg hsaved, lastSaved_append (Bool.eq_false_of_not_eq_true hsaved)]
      exact hbefore
  refine ⟨fun other u hu hu' => ?_, fun other u hu hu' => ?_, fun other u hu => ?_, hstored,
    fun content hcontent => ?_⟩
  · by_cases hne : other = index
    · rw [hne, hlast, List.length_set]
    · rw [hover other u hne hu] at hu'
      cases hu'
  · by_cases hne : other = index
    · obtain rfl := hself u (hne ▸ hu)
      rw [hkeeps.records_eq, hkeeps.options_eq]
      exact h.encoded index w hw hkeeps.inProgress
    · rw [hover other u hne hu] at hu'
      cases hu'
  · by_cases hne : other = index
    · obtain rfl := hself u (hne ▸ hu)
      exact hkeeps.holds
    · exact StoreWriter.holds_of_isOver (hover other u hne hu) files'
  · rw [hkeeps.content] at hcontent
    split_ifs at hcontent
    · obtain rfl := Option.some.inj hcontent
      exact Or.inl (StoreWriter.isStoreImage_image (h.encoded index w hw hkeeps.inProgress))
    · exact h.origin content hcontent

/-- The process is lost: the files stay. -/
theorem IsSound.crash (h : s.IsSound sha path initial) (loaders : List StoreLoader) :
    IsSound sha path initial
      { s with writers := s.writers.map StoreWriter.crash, loaders } := by
  have hover : ∀ w : StoreWriter, w.crash.phase.isOver = true := by
    intro w
    unfold StoreWriter.crash
    split_ifs with hw
    · exact hw
    · rfl
  have hmem : ∀ (index : ℕ) (w : StoreWriter), (s.writers.map StoreWriter.crash)[index]? = some w →
      w.phase.isOver = true := by
    intro index w hw
    rw [List.getElem?_map, Option.map_eq_some_iff] at hw
    obtain ⟨w, -, rfl⟩ := hw
    exact hover w
  have hsaved : (s.writers.map StoreWriter.crash).filter (fun w => w.phase.isSaved) =
      s.writers.filter fun w => w.phase.isSaved := by
    -- what is lost was not saved
    have hcrash : ∀ w : StoreWriter, w.phase.isOver = false →
        w.crash.phase.isSaved = false ∧ w.phase.isSaved = false := by
      intro w hw
      unfold StoreWriter.crash
      rw [hw]
      exact ⟨rfl, isSaved_eq_false hw⟩
    induction s.writers with
    | nil => rfl
    | cons w ws ih =>
      rw [List.map_cons, List.filter_cons, List.filter_cons, ih]
      cases hw : w.phase.isOver with
      | true =>
        unfold StoreWriter.crash
        rw [if_pos hw]
      | false =>
        obtain ⟨hcrashed, hsaved⟩ := hcrash w hw
        rw [hcrashed, hsaved]
        rfl
  refine ⟨fun index w hw hw' => ?_, fun index w hw hw' => ?_, fun index w hw => ?_, ?_,
    h.origin⟩
  · rw [hmem index w hw] at hw'
    cases hw'
  · rw [hmem index w hw] at hw'
    cases hw'
  · exact StoreWriter.holds_of_isOver (hmem index w hw) s.files
  · unfold lastSaved
    rw [hsaved]
    exact h.stored

/-- **The step lemma**: an operation that keeps saves apart keeps the invariant. -/
theorem IsSound.step (h : s.IsSound sha path initial) (hapart : s.KeepsApart action)
    (hstep : s.step sha path action = some s') : s'.IsSound sha path initial := by
  unfold StoreFiles.step at hstep
  cases action with
  | save records options =>
    obtain rfl := Option.some.inj hstep
    exact h.save hapart
  | write index event =>
    obtain ⟨w, hw, hmap⟩ := Option.bind_eq_some_iff.mp hstep
    obtain ⟨⟨w', files'⟩, hnext, rfl⟩ := Option.map_eq_some_iff.mp hmap
    exact h.write hw (StoreWriter.keeps_of_next (h.holds index w hw) hnext)
  | load limits =>
    obtain rfl := Option.some.inj hstep
    exact ⟨h.last, h.encoded, h.holds, h.stored, h.origin⟩
  | read index event =>
    obtain ⟨loader, -, hmap⟩ := Option.bind_eq_some_iff.mp hstep
    obtain ⟨loader', -, rfl⟩ := Option.map_eq_some_iff.mp hmap
    exact ⟨h.last, h.encoded, h.holds, h.stored, h.origin⟩
  | crash =>
    obtain rfl := Option.some.inj hstep
    exact h.crash _

/-- A file that is apart stays as it is. -/
theorem isApart_step (h : s.IsSound sha path initial) (hstep : s.step sha path action = some s')
    {file : ℕ} (hfile : IsApart path s.files file) :
    IsApart path s'.files file ∧ s'.files.contents file = s.files.contents file := by
  unfold StoreFiles.step at hstep
  cases action with
  | write index event =>
    obtain ⟨w, hw, hmap⟩ := Option.bind_eq_some_iff.mp hstep
    obtain ⟨⟨w', files'⟩, hnext, rfl⟩ := Option.map_eq_some_iff.mp hmap
    exact (StoreWriter.keeps_of_next (h.holds index w hw) hnext).apart file hfile
  | read index event =>
    obtain ⟨loader, -, hmap⟩ := Option.bind_eq_some_iff.mp hstep
    obtain ⟨loader', -, rfl⟩ := Option.map_eq_some_iff.mp hmap
    exact ⟨hfile, rfl⟩
  | save records options | load limits | crash =>
    obtain rfl := Option.some.inj hstep
    exact ⟨hfile, rfl⟩

end StoreFiles

end System

end PathPlanner
