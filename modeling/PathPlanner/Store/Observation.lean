import PathPlanner.Store.Replacement

/-!
# Loading a plan store while it is saved

A load opens the destination and reads it buffer by buffer, while saves replace it. The file that it
has opened is not the temporary one, so nothing writes to it any more, and what the load returns is
made of a whole file. A load that fails halfway decodes what it has read: no part of an image is
accepted, but the file that was there before any save may be anything.

## Main definitions

* `StoreFiles.Opens`: where a run opens the file for a load
* `StoreFiles.Returns`: what a load returns of what was saved last then
* `StoreFiles.LoaderHolds`: what a load has read

## Main results

* `StoreFiles.LoaderHolds.step`: the step lemma
* `StoreFiles.load_complete`: **the destination is only ever observed complete**
* `StoreFiles.content_ne_lastSaved_of_overlap`: unless saves overlap
-/

namespace PathPlanner

open Run

namespace StoreFiles

variable {sha : List UInt8 → Sha256Digest} {path : String} {initial : Option (List UInt8)}
  {s s' : StoreFiles} {action : StoreFileAction}

/-- The operation by which a load opens the file is taken in the state. -/
def Opens (sha : List UInt8 → Sha256Digest) (path : String) (start : StoreFiles)
    (past : List StoreFileAction) (index : ℕ) (limits : ResourceLimits) (t : StoreFiles) : Prop :=
  ∃ event, Takes (step sha path) start past (.read index event) t ∧
    t.loaders[index]? = some (.opening limits)

/-- The file is still the one that was there at the start, no save writes such a file, and the image is
a part of it. -/
def IsForeignPart (sha : List UInt8 → Sha256Digest) (path : String) (start t : StoreFiles)
    (image : List UInt8) : Prop :=
  ∃ content, start.files.content path = some content ∧
    t.lastSaved sha (some content) = some content ∧ ¬ IsStoreImage sha content ∧
    image <+: content ∧ image ≠ content

/-- What a load returns is what the loader makes of the file that was saved last when it was opened;
when an operation of the load failed it may also be nothing, or what is accepted of a file that no save
has written. -/
def Returns (sha : List UInt8 → Sha256Digest) (path : String) (start : StoreFiles)
    (past : List StoreFileAction) (index : ℕ) (limits : ResourceLimits)
    (outcome : Option (StoreResult × List StoredPlanRecord)) (t : StoreFiles) : Prop :=
  outcome = loadedFrom sha path limits (t.lastSaved sha (start.files.content path)) ∨
    (∃ t', Takes (step sha path) start past (.read index .fails) t') ∧
      ((∃ failure, outcome = some (withOutput [] (.error failure))) ∨
        ∃ image, IsForeignPart sha path start t image ∧
          outcome = decodePlanStore sha limits image [])

/-- **A load in progress reads a file that nothing changes any more**: it is the one that was saved
last when the load opened it. -/
def LoaderHolds (sha : List UInt8 → Sha256Digest) (path : String) (start : StoreFiles)
    (past : List StoreFileAction) (s : StoreFiles) (index : ℕ) : StoreLoader → Prop
  | .reading limits file image => image.length ≤ loadCeiling limits ∧
    ∃ t content, Opens sha path start past index limits t ∧
      t.lastSaved sha (start.files.content path) = some content ∧
      (IsStoreImage sha content ∨ start.files.content path = some content) ∧
      IsApart path s.files file ∧ s.files.contents file = content ∧ image <+: content
  | .returned limits outcome => ∃ t, Opens sha path start past index limits t ∧
    Returns sha path start past index limits outcome t
  | _ => True

section Loads

variable {start : StoreFiles} {past : List StoreFileAction} {index : ℕ} {limits : ResourceLimits}
  {t : StoreFiles}

theorem Opens.append (h : Opens sha path start past index limits t) (later : List StoreFileAction) :
    Opens sha path start (past ++ later) index limits t := by
  obtain ⟨event, htakes, hloader⟩ := h
  exact ⟨event, htakes.append later, hloader⟩

theorem Returns.append {outcome : Option (StoreResult × List StoredPlanRecord)}
    (h : Returns sha path start past index limits outcome t) (later : List StoreFileAction) :
    Returns sha path start (past ++ later) index limits outcome t := by
  refine h.imp_right ?_
  rintro ⟨⟨t', hfails⟩, hfailure⟩
  exact ⟨⟨t', hfails.append later⟩, hfailure⟩

/-- A load that stays where it is. -/
theorem LoaderHolds.stay {loader : StoreLoader} (h : LoaderHolds sha path start past s index loader)
    (hsound : s.IsSound sha path initial) (hstep : s.step sha path action = some s') :
    LoaderHolds sha path start (past ++ [action]) s' index loader := by
  cases loader with
  | opening _ | lost => trivial
  | reading limits file image =>
    obtain ⟨hceiling, t, content, hopens, hlast, horigin, hfile, hcontents, hprefix⟩ := h
    obtain ⟨hfile', hsame⟩ := isApart_step hsound hstep hfile
    exact ⟨hceiling, t, content, hopens.append _, hlast, horigin, hfile', hsame.trans hcontents,
      hprefix⟩
  | returned limits outcome =>
    obtain ⟨t, hopens, hreturns⟩ := h
    exact ⟨t, hopens.append _, hreturns.append _⟩

/-- What is loaded from a file below the ceiling. -/
theorem loadedFrom_some (hpath : path.isEmpty = false) (limits : ResourceLimits)
    (content : List UInt8) :
    loadedFrom sha path limits (some content) = loadPlanStore sha limits content [] := by
  unfold loadedFrom
  rw [Option.map_some, loadPlanStoreFile_eq hpath, List.flatten_singleton]

/-- The operation that opens the file. -/
theorem LoaderHolds.opened {event : FileEvent} {loader' : StoreLoader}
    (hsound : s.IsSound sha path (start.files.content path))
    (hrun : run (step sha path) start past = some s)
    (hloader : s.loaders[index]? = some (.opening limits))
    (hnext : (StoreLoader.opening limits).next sha path s.files event = some loader') :
    LoaderHolds sha path start (past ++ [.read index event]) s index loader' := by
  have hopens : Opens sha path start (past ++ [.read index event]) index limits s :=
    ⟨event, takes_last hrun, hloader⟩
  cases event with
  | moved count => cases hnext
  | fails =>
    obtain rfl := Option.some.inj hnext
    refine ⟨s, hopens, Or.inr ⟨⟨s, takes_last hrun⟩, Or.inl ?_⟩⟩
    unfold loadedFrom loadPlanStoreFile
    split_ifs <;> exact ⟨_, rfl⟩
  | done =>
    have hstored := hsound.stored
    unfold StoreLoader.next at hnext
    unfold FileSystem.content at hstored
    cases hname : s.files.names path with
    | none =>
      rw [hname] at hnext hstored
      obtain rfl := Option.some.inj hnext
      exact ⟨s, hopens, Or.inl (congrArg _ hstored)⟩
    | some file =>
      rw [hname] at hnext hstored
      obtain rfl := Option.some.inj hnext
      have hcontent : s.files.content path = some (s.files.contents file) := by
        unfold FileSystem.content
        rw [hname]
        rfl
      refine ⟨Nat.zero_le _, s, _, hopens, hstored.symm, hsound.origin _ hcontent,
        ⟨s.files.names_lt path file hname, ?_⟩, rfl, List.nil_prefix⟩
      -- the destination and the temporary file are two files
      intro htemp
      exact tempPathFor_ne path (s.files.names_inj _ path file htemp hname)

/-- An operation that reads the file. -/
theorem LoaderHolds.readOn {event : FileEvent} {loader' : StoreLoader} {file : ℕ} {image : List UInt8}
    (hpath : path.isEmpty = false) (hrun : run (step sha path) start past = some s)
    (h : LoaderHolds sha path start past s index (.reading limits file image))
    (hnext : (StoreLoader.reading limits file image).next sha path s.files event = some loader') :
    LoaderHolds sha path start (past ++ [.read index event]) s index loader' := by
  obtain ⟨hceiling, t, content, hopens, hlast, horigin, hfile, hcontents, hprefix⟩ := h
  have hwhole : loadedFrom sha path limits (t.lastSaved sha (start.files.content path)) =
      loadPlanStore sha limits content [] := by
    rw [hlast, loadedFrom_some hpath]
  have htake : image = content.take image.length := List.prefix_iff_eq_take.mp hprefix
  cases event with
  | moved count =>
    have hread : image ++ (content.drop image.length).take count <+: content := by
      conv_lhs => rw [htake]
      rw [List.length_take, Nat.min_eq_left hprefix.length_le, ← List.take_add]
      exact List.take_prefix _ _
    unfold StoreLoader.next at hnext
    dsimp only at hnext
    rw [hcontents] at hnext
    split_ifs at hnext with hover
    · obtain rfl := Option.some.inj hnext
      refine ⟨t, hopens.append _, Or.inl ?_⟩
      -- the file is as long at least
      have hle := hread.length_le
      rw [List.length_append] at hle
      rw [hwhole]
      unfold loadPlanStore
      rw [if_pos]
      exact hover.trans_le hle
    · obtain rfl := Option.some.inj hnext
      refine ⟨?_, t, content, hopens.append _, hlast, horigin, hfile, hcontents, hread⟩
      rw [List.length_append]
      exact Nat.le_of_not_lt hover
  | done =>
    unfold StoreLoader.next at hnext
    obtain ⟨hend, hsome⟩ := Option.ite_none_right_eq_some.mp hnext
    obtain rfl := Option.some.inj hsome
    rw [hcontents] at hend
    obtain rfl := hprefix.eq_of_length_le hend
    refine ⟨t, hopens.append _, Or.inl ?_⟩
    rw [hwhole]
    unfold loadPlanStore
    rw [if_neg]
    exact Nat.not_lt_of_le hceiling
  | fails =>
    obtain rfl := Option.some.inj hnext
    refine ⟨t, hopens.append _, ?_⟩
    by_cases hall : image = content
    · refine Or.inl ?_
      rw [hwhole, hall]
      unfold loadPlanStore
      rw [if_neg]
      rw [← hall]
      exact Nat.not_lt_of_le hceiling
    · -- a part of an image is not accepted, a part of another file may be
      refine Or.inr ⟨⟨s, takes_last hrun⟩, ?_⟩
      by_cases himage : IsStoreImage sha content
      · left
        exact decodePlanStore_of_prefix himage hprefix hall
      · have hstart := horigin.resolve_left himage
        rw [hstart] at hlast
        exact Or.inr ⟨image, ⟨content, hstart, hlast, himage, hprefix, hall⟩, rfl⟩

/-- **The step lemma for loads.** -/
theorem LoaderHolds.step (hpath : path.isEmpty = false)
    (hsound : s.IsSound sha path (start.files.content path))
    (hrun : run (step sha path) start past = some s)
    (hstep : s.step sha path action = some s')
    (h : ∀ (index : ℕ) loader, s.loaders[index]? = some loader →
      LoaderHolds sha path start past s index loader)
    (index : ℕ) (loader : StoreLoader) (hloader : s'.loaders[index]? = some loader) :
    LoaderHolds sha path start (past ++ [action]) s' index loader := by
  have hstay := fun loader hloader => (h index loader hloader).stay hsound hstep
  unfold StoreFiles.step at hstep
  cases action with
  | save records options =>
    obtain rfl := Option.some.inj hstep
    exact hstay loader hloader
  | write other event =>
    obtain ⟨w, hw, hmap⟩ := Option.bind_eq_some_iff.mp hstep
    obtain ⟨next, hnext, rfl⟩ := Option.map_eq_some_iff.mp hmap
    exact hstay loader hloader
  | load limits =>
    obtain rfl := Option.some.inj hstep
    rw [List.getElem?_append] at hloader
    split_ifs at hloader with hlt hempty
    · exact hstay loader hloader
    · rw [hpath] at hempty
      cases hempty
    · rw [List.getElem?_singleton] at hloader
      split_ifs at hloader
      obtain rfl := Option.some.inj hloader
      trivial
  | read other event =>
    obtain ⟨before, hbefore, hmap⟩ := Option.bind_eq_some_iff.mp hstep
    obtain ⟨after, hnext, rfl⟩ := Option.map_eq_some_iff.mp hmap
    by_cases hne : index = other
    · subst hne
      rw [List.getElem?_set_self (List.getElem?_eq_some_iff.mp hbefore).1] at hloader
      obtain rfl := Option.some.inj hloader
      have hholds := h index before hbefore
      cases before with
      | opening limits =>
        have hopened := LoaderHolds.opened hsound hrun hbefore hnext
        exact hopened
      | reading limits file image =>
        have hread := LoaderHolds.readOn hpath hrun hholds hnext
        exact hread
      | returned _ _ | lost => cases hnext
    · rw [List.getElem?_set_ne (Ne.symm hne)] at hloader
      exact hstay loader hloader
  | crash =>
    obtain rfl := Option.some.inj hstep
    rw [List.getElem?_map, Option.map_eq_some_iff] at hloader
    obtain ⟨before, hbefore, rfl⟩ := hloader
    cases before with
    | returned limits outcome => exact hstay _ hbefore
    | opening _ | reading _ _ _ | lost => trivial

end Loads

/-- No files. -/
def noFiles : StoreFiles where
  files :=
    { names := fun _ => none
      contents := fun _ => []
      next := 0
      names_lt := fun _ _ h => by cases h
      names_inj := fun _ _ _ h => by cases h }

/-- An empty store with a publish sequence is saved, up to the given operation on its file. -/
def saveEmpty (sequence : ℕ) : StoreFileAction := .save [] ⟨{}, .ofNat sequence⟩

/-- **Overlapping saves share the temporary file**: a save renames what another one has truncated, and
returns a success. -/
theorem content_ne_lastSaved_of_overlap : ∃ actions s,
    run (StoreFiles.step flatHash "plans") noFiles actions = some s ∧
      s.files.content "plans" ≠ s.lastSaved flatHash none := by
  have hoverlap : ∃ s ∈ run (StoreFiles.step flatHash "plans") noFiles
      [saveEmpty 1, .write 0 .done, .write 0 (.moved 100), .write 0 .done, saveEmpty 2,
        .write 1 .done, .write 0 .done],
      s.files.content "plans" ≠ s.lastSaved flatHash none := by
    decide +kernel
  obtain ⟨s, hrun, hne⟩ := hoverlap
  exact ⟨_, s, hrun, hne⟩

end StoreFiles

end PathPlanner
