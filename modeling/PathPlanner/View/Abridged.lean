import PathPlanner.Search.Reconfigured
import PathPlanner.View.Rows

/-!
# Views with a shorter log

The limit on explanations bounds the rejections that are recorded one by one. A smaller limit keeps
a beginning of them, and changes nothing else in the view.

## Main definitions

* `RejectionLog.Abridges`: a log with a smaller bound beside one with a larger bound
* `ResourceLimits.withExplanations`: the limits with another bound on explanations
* `countedCodes`, `listedCodes`: the diagnostics that a view counts, and those that it records one by
  one while there is room

## Main results

* `RejectionLog.Abridges.render`: a shorter log shows a part of what the longer one shows
* `buildPlanningView_withExplanations`: the same view with a shorter log
* `buildPlanningView_holds`: the causes in the log of a view
-/

namespace PathPlanner

/-- The limits with another bound on explanations. -/
def ResourceLimits.withExplanations (limits : ResourceLimits) (entries : UInt32) : ResourceLimits :=
  { limits with maxExplanationEntries := entries }

/-! ## Logs -/

namespace RejectionLog

/-- The first log keeps a beginning of the explicit entries of the second. -/
structure Abridges (small large : RejectionLog) : Prop where
  aggregates : small.aggregates = large.aggregates
  maxEntries_le : small.maxEntries ≤ large.maxEntries
  explicitEntries : small.explicitEntries = large.explicitEntries.take small.maxEntries

namespace Abridges

variable {small large : RejectionLog} {code : DiagnosticCode} {subject : SubjectKey}
  {detail : String}

theorem new {m n : ℕ} (h : m ≤ n) : (RejectionLog.new m).Abridges (RejectionLog.new n) where
  aggregates := rfl
  maxEntries_le := by
    change (if m = 0 then 1 else m) ≤ if n = 0 then 1 else n
    split_ifs <;> omega
  explicitEntries := List.take_nil.symm

theorem aggregate (h : small.Abridges large) :
    (small.aggregate code subject detail).Abridges (large.aggregate code subject detail) where
  aggregates := congrArg (countOccurrence code subject detail) h.aggregates
  maxEntries_le := h.maxEntries_le
  explicitEntries := h.explicitEntries

/-- Recording a rejection: the shorter log is full no later than the longer one. -/
theorem explicit (h : small.Abridges large) :
    (small.explicit code subject detail).Abridges (large.explicit code subject detail) := by
  have hlength : small.explicitEntries.length =
      min small.maxEntries large.explicitEntries.length := by
    rw [h.explicitEntries, List.length_take]
  have hle := h.maxEntries_le
  unfold RejectionLog.explicit
  by_cases hlarge : large.explicitEntries.length ≥ large.maxEntries
  · rw [if_pos hlarge, if_pos (show small.explicitEntries.length ≥ small.maxEntries by omega)]
    exact h
  rw [if_neg hlarge]
  by_cases hsmall : small.explicitEntries.length ≥ small.maxEntries
  · rw [if_pos hsmall]
    refine ⟨h.aggregates, hle, ?_⟩
    rw [h.explicitEntries, List.take_append_of_le_length (by omega)]
  · rw [if_neg hsmall]
    refine ⟨h.aggregates, hle, ?_⟩
    have hall : small.explicitEntries = large.explicitEntries := by
      rw [h.explicitEntries, List.take_of_length_le (by omega)]
    dsimp only
    rw [hall, List.take_of_length_le]
    rw [List.length_append, List.length_singleton, ← hall]
    omega

/-- **A cause in the shorter log** is one in the longer log. -/
theorem contains_imp (h : small.Abridges large) (hc : small.contains code = true) :
    large.contains code = true := by
  simp only [contains, Bool.or_eq_true, List.any_eq_true] at hc ⊢
  rw [h.aggregates, h.explicitEntries] at hc
  refine hc.imp_right fun hlisted => ?_
  obtain ⟨entry, he, hcode⟩ := hlisted
  exact ⟨entry, List.mem_of_mem_take he, hcode⟩

/-- **What the shorter log shows** is a part of what the longer log shows. -/
theorem render (h : small.Abridges large) : small.render.Sublist large.render := by
  unfold RejectionLog.render
  rw [h.aggregates, h.explicitEntries]
  exact (List.Sublist.refl _).append (List.take_sublist _ _)

/-- The first cause of the longer log is the first of the shorter log when that log records it, and
only then. -/
theorem find?_eq_iff (h : small.Abridges large) {causes : List DiagnosticCode} :
    causes.find? small.contains = causes.find? large.contains ↔
      ∀ code, causes.find? large.contains = some code → small.contains code = true := by
  constructor
  · intro heq code hcode
    rw [← heq] at hcode
    exact List.find?_some hcode
  · intro hrecords
    induction causes with
    | nil => rfl
    | cons cause causes ih =>
      rw [List.find?_cons, List.find?_cons]
      rw [List.find?_cons] at hrecords
      cases hlarge : large.contains cause with
      | true =>
        rw [hlarge] at hrecords
        rw [hrecords cause rfl]
      | false =>
        rw [hlarge] at hrecords
        have hsmall : small.contains cause = false := by
          rw [← Bool.not_eq_true]
          intro hcontains
          rw [h.contains_imp hcontains] at hlarge
          cases hlarge
        rw [hsmall]
        exact ih hrecords

end Abridges

end RejectionLog

/-! ## Scans -/

section Scans

variable {verdict : NodeRecord → Option (DiagnosticCode × String)} {m n : ℕ}

/-- **The loop over the nodes** under a smaller bound. -/
theorem scanNodes_abridges (h : m ≤ n) (nodes : List NodeRecord) :
    ∃ log : RejectionLog,
      scanNodes verdict m nodes = { scanNodes verdict n nodes with rejections := log } ∧
        log.Abridges (scanNodes verdict n nodes).rejections := by
  induction nodes using List.reverseRecOn with
  | nil => exact ⟨_, rfl, .new h⟩
  | append_singleton nodes node ih =>
    obtain ⟨log, hscan, habridges⟩ := ih
    have hsnoc (k : ℕ) : scanNodes verdict k (nodes ++ [node]) =
        scanNode verdict (scanNodes verdict k nodes) node := by
      rw [scanNodes, List.foldl_append]
      rfl
    rw [hsnoc, hsnoc, hscan]
    unfold scanNode
    cases verdict node with
    | none => exact ⟨log, rfl, habridges⟩
    | some failure => exact ⟨_, rfl, habridges.explicit⟩

/-- **The loop over the edges** from a shorter log. -/
theorem scanEdges_abridges (verdict : ℕ → EdgeRecord → EdgeVerdict) {small large : RejectionLog}
    (h : small.Abridges large) (edges : List EdgeRecord) :
    (scanEdges verdict edges small).1 = (scanEdges verdict edges large).1 ∧
      (scanEdges verdict edges small).2.Abridges (scanEdges verdict edges large).2 := by
  unfold scanEdges
  induction edges.zipIdx using List.reverseRecOn with
  | nil => exact ⟨rfl, h⟩
  | append_singleton indexed entry ih =>
    obtain ⟨hpending, habridges⟩ := ih
    rw [List.foldl_append, List.foldl_append]
    change (scanEdge verdict _ entry).1 = (scanEdge verdict _ entry).1 ∧
      (scanEdge verdict _ entry).2.Abridges (scanEdge verdict _ entry).2
    unfold scanEdge
    cases verdict entry.2 entry.1 with
    | skipped => exact ⟨hpending, habridges⟩
    | aggregated code subject detail => exact ⟨hpending, habridges.aggregate⟩
    | listed code subject detail => exact ⟨hpending, habridges.explicit⟩
    | eligible pending => exact ⟨congrArg (· ++ [pending]) hpending, habridges⟩

end Scans

/-! ## Views -/

section View

variable {snapshot : FabricSnapshot} {request : PlanningRequest} {limits : ResourceLimits}
  {entries : UInt32} {source destination : NodeId}

/-- The same view with another log, under the limits with another bound on explanations. -/
def BuiltView.withExplanations (built : BuiltView) (entries : UInt32) (log : RejectionLog) :
    BuiltView :=
  { built with
    view := built.view.reconfigured (built.view.limits.withExplanations entries) log }

/-- **Under a smaller bound on explanations** a construction fails alike, or gives the same view with
a shorter log. -/
theorem buildPlanningView_withExplanations (h : entries ≤ limits.maxExplanationEntries) :
    match buildPlanningView snapshot request limits source destination with
    | .error failure => buildPlanningView snapshot request (limits.withExplanations entries) source
        destination = .error failure
    | .ok built => ∃ log : RejectionLog,
        buildPlanningView snapshot request (limits.withExplanations entries) source destination =
            .ok (built.withExplanations entries log) ∧
          log.Abridges built.view.rejections := by
  obtain ⟨log, hscan, habridges⟩ := @scanNodes_abridges
    (evaluateNode (viewSettings snapshot request limits) request
      (SortedList.sortBy id request.constraints.forbiddenNodes))
    entries.toNat limits.maxExplanationEntries.toNat (UInt32.le_iff_toNat_le.mp h) snapshot.nodes
  -- the verdicts do not look at the limits
  have hscan' : scanNodes (evaluateNode (viewSettings snapshot request
      (limits.withExplanations entries)) request
        (SortedList.sortBy id request.constraints.forbiddenNodes))
      (limits.withExplanations entries).maxExplanationEntries.toNat snapshot.nodes = _ := hscan
  unfold buildPlanningView
  dsimp only
  rw [hscan']
  dsimp only
  generalize scanNodes (evaluateNode (viewSettings snapshot request limits) request
    (SortedList.sortBy id request.constraints.forbiddenNodes))
    limits.maxExplanationEntries.toNat snapshot.nodes = scan at habridges ⊢
  by_cases hcount : scan.viewToSnapshotNode.length > limits.maxNodes.toNat
  · rw [if_pos hcount]
    exact if_pos hcount
  rw [if_neg hcount]
  rw [if_neg (show ¬ scan.viewToSnapshotNode.length >
    (limits.withExplanations entries).maxNodes.toNat from hcount)]
  cases viewIndexOf snapshot scan.snapshotToViewNode source with
  | none => rfl
  | some sourceView =>
    cases viewIndexOf snapshot scan.snapshotToViewNode destination with
    | none => rfl
    | some destinationView =>
      dsimp only
      have hcapable : request.constraints.requiredCapabilities.findSome? (endpointCapabilityFailure
          (viewSettings snapshot request (limits.withExplanations entries)) source destination) =
        request.constraints.requiredCapabilities.findSome? (endpointCapabilityFailure
          (viewSettings snapshot request limits) source destination) := rfl
      rw [hcapable]
      cases request.constraints.requiredCapabilities.findSome? (endpointCapabilityFailure
          (viewSettings snapshot request limits) source destination) with
      | some failure => rfl
      | none =>
        obtain ⟨hpending, hlog⟩ := scanEdges_abridges (evaluateEdge
          (viewSettings snapshot request limits) request scan) habridges snapshot.edges
        refine ⟨_, ?_, hlog⟩
        change Except.ok (BuiltView.mk (assembleView
          (viewSettings snapshot request (limits.withExplanations entries))
          { scan with rejections := log } (scanEdges (evaluateEdge
            (viewSettings snapshot request limits) request scan) snapshot.edges log))
          sourceView destinationView) = _
        unfold assembleView
        rw [hpending]
        rfl

end View

/-! ## What a log holds -/

/-- The diagnostic of an edge that is recorded by itself. -/
def EdgeVerdict.listedCode : EdgeVerdict → Option DiagnosticCode
  | .listed code _ _ => some code
  | _ => none

/-- The diagnostic of an edge that is counted. -/
def EdgeVerdict.countedCode : EdgeVerdict → Option DiagnosticCode
  | .aggregated code _ _ => some code
  | _ => none

/-- The log has room for `n` entries; it has counted some diagnostics, and recorded the beginning of
others. -/
structure RejectionLog.Holds (log : RejectionLog) (n : ℕ) (counted listed : List DiagnosticCode) :
    Prop where
  maxEntries : log.maxEntries = n
  counted : ∀ code, (∃ entry ∈ log.aggregates, entry.code = code) ↔ code ∈ counted
  listed : log.explicitEntries.map (·.code) = listed.take n

namespace RejectionLog.Holds

variable {log : RejectionLog} {n : ℕ} {counted listed : List DiagnosticCode} {code : DiagnosticCode}
  {subject : SubjectKey} {detail : String}

theorem new : (RejectionLog.new n).Holds (max 1 n) [] [] where
  maxEntries := by
    change (if n = 0 then 1 else n) = max 1 n
    split_ifs <;> omega
  counted := fun _ => iff_of_false (fun ⟨_, h, _⟩ => List.not_mem_nil h) List.not_mem_nil
  listed := List.take_nil.symm

theorem aggregate (h : log.Holds n counted listed) :
    (log.aggregate code subject detail).Holds n (counted ++ [code]) listed where
  maxEntries := h.maxEntries
  counted c := by
    change (∃ entry ∈ countOccurrence code subject detail log.aggregates, entry.code = c) ↔ _
    rw [exists_code_countOccurrence, h.counted, List.mem_append, List.mem_singleton, or_comm]
  listed := h.listed

/-- Beyond its room the log records nothing. -/
theorem explicit (h : log.Holds n counted listed) :
    (log.explicit code subject detail).Holds n counted (listed ++ [code]) := by
  have hlength : log.explicitEntries.length = min n listed.length := by
    rw [← List.length_map (·.code), h.listed, List.length_take]
  unfold RejectionLog.explicit
  rw [h.maxEntries]
  by_cases hfull : log.explicitEntries.length ≥ n
  · rw [if_pos hfull]
    refine ⟨h.maxEntries, h.counted, ?_⟩
    rw [h.listed, List.take_append_of_le_length (by omega)]
  · rw [if_neg hfull]
    refine ⟨rfl, h.counted, ?_⟩
    rw [List.map_append, h.listed, List.take_of_length_le (by omega), List.take_of_length_le]
    · rfl
    · rw [List.length_append, List.length_singleton]
      omega

/-- **A cause of the log** is one that is counted, or one that is recorded early enough. -/
theorem contains_iff (h : log.Holds n counted listed) :
    log.contains code = true ↔ code ∈ counted ∨ code ∈ listed.take n := by
  rw [← h.counted, ← h.listed]
  simp only [contains, Bool.or_eq_true, List.any_eq_true, decide_eq_true_eq, List.mem_map]

end RejectionLog.Holds

/-- **The loop over the nodes** records the diagnostics of the nodes. -/
theorem scanNodes_holds {verdict : NodeRecord → Option (DiagnosticCode × String)} {n : ℕ}
    (nodes : List NodeRecord) : (scanNodes verdict n nodes).rejections.Holds (max 1 n) []
      (nodes.filterMap fun node => (verdict node).map (·.1)) := by
  induction nodes using List.reverseRecOn with
  | nil => exact .new
  | append_singleton nodes node ih =>
    rw [scanNodes, List.foldl_append, List.filterMap_append]
    change (scanNode verdict (scanNodes verdict n nodes) node).rejections.Holds _ _ _
    unfold scanNode
    cases hverdict : verdict node with
    | none =>
      rw [List.filterMap_cons_none (by rw [hverdict]; rfl), List.filterMap_nil, List.append_nil]
      exact ih
    | some failure =>
      rw [List.filterMap_cons_some (by rw [hverdict]; rfl)]
      exact ih.explicit

/-- One edge is counted, recorded, or neither. -/
theorem scanEdge_holds {verdict : ℕ → EdgeRecord → EdgeVerdict} {n : ℕ}
    {counted listed : List DiagnosticCode} {scan : List PendingAdjacency × RejectionLog}
    (h : scan.2.Holds n counted listed) (entry : EdgeRecord × ℕ) :
    (scanEdge verdict scan entry).2.Holds n
      (counted ++ (verdict entry.2 entry.1).countedCode.toList)
      (listed ++ (verdict entry.2 entry.1).listedCode.toList) := by
  unfold scanEdge
  cases verdict entry.2 entry.1 with
  | skipped | eligible _ =>
    dsimp only [EdgeVerdict.countedCode, EdgeVerdict.listedCode, Option.toList]
    rw [List.append_nil, List.append_nil]
    exact h
  | aggregated code subject detail =>
    dsimp only [EdgeVerdict.countedCode, EdgeVerdict.listedCode, Option.toList]
    rw [List.append_nil]
    exact h.aggregate
  | listed code subject detail =>
    dsimp only [EdgeVerdict.countedCode, EdgeVerdict.listedCode, Option.toList]
    rw [List.append_nil]
    exact h.explicit

/-- **The loop over the edges** counts some diagnostics and records others. -/
theorem scanEdges_holds {verdict : ℕ → EdgeRecord → EdgeVerdict} {log : RejectionLog} {n : ℕ}
    {listed : List DiagnosticCode} (h : log.Holds n [] listed) (edges : List EdgeRecord) :
    (scanEdges verdict edges log).2.Holds n
      (edges.zipIdx.filterMap fun entry => (verdict entry.2 entry.1).countedCode)
      (listed ++ edges.zipIdx.filterMap fun entry => (verdict entry.2 entry.1).listedCode) := by
  unfold scanEdges
  induction edges.zipIdx using List.reverseRecOn with
  | nil => exact (List.append_nil listed).symm ▸ h
  | append_singleton indexed entry ih =>
    have hstep := @scanEdge_holds verdict _ _ _ _ ih entry
    have hone (f : EdgeRecord × ℕ → Option DiagnosticCode) :
        [entry].filterMap f = (f entry).toList := by
      cases hf : f entry with
      | none => exact List.filterMap_cons_none hf
      | some code => exact List.filterMap_cons_some hf
    rw [List.foldl_append, List.filterMap_append, List.filterMap_append, ← List.append_assoc, hone,
      hone]
    exact hstep

section Recorded

variable (snapshot : FabricSnapshot) (request : PlanningRequest) (limits : ResourceLimits)

/-- The verdict of the view on a node. -/
def nodeVerdict (node : NodeRecord) : Option (DiagnosticCode × String) :=
  evaluateNode (viewSettings snapshot request limits) request
    (SortedList.sortBy id request.constraints.forbiddenNodes) node

/-- The verdicts of the view on the edges. -/
def edgeVerdicts : List EdgeVerdict :=
  snapshot.edges.zipIdx.map fun entry =>
    evaluateEdge (viewSettings snapshot request limits) request
      (scanNodes (nodeVerdict snapshot request limits) limits.maxExplanationEntries.toNat
        snapshot.nodes) entry.2 entry.1

/-- The diagnostics that the view counts. -/
def countedCodes : List DiagnosticCode :=
  (edgeVerdicts snapshot request limits).filterMap EdgeVerdict.countedCode

/-- The diagnostics that the view records one by one, as far as there is room. -/
def listedCodes : List DiagnosticCode :=
  (snapshot.nodes.filterMap fun node => (nodeVerdict snapshot request limits node).map (·.1)) ++
    (edgeVerdicts snapshot request limits).filterMap EdgeVerdict.listedCode

variable {snapshot request limits}

/-- **The log of a view** holds the diagnostics of its elements. -/
theorem buildPlanningView_holds {source destination : NodeId} {built : BuiltView}
    (h : buildPlanningView snapshot request limits source destination = .ok built) :
    built.view.rejections.Holds (max 1 limits.maxExplanationEntries.toNat)
      (countedCodes snapshot request limits) (listedCodes snapshot request limits) := by
  unfold buildPlanningView at h
  dsimp only at h
  split_ifs at h
  split at h
  · cases h
  · cases h
  · split at h
    · cases h
    · rw [← Except.ok.inj h]
      unfold countedCodes listedCodes edgeVerdicts
      rw [List.filterMap_map, List.filterMap_map]
      exact scanEdges_holds (scanNodes_holds snapshot.nodes) snapshot.edges

/-- Another bound on explanations changes no verdict. -/
theorem edgeVerdicts_withExplanations {entries : UInt32}
    (h : entries ≤ limits.maxExplanationEntries) :
    edgeVerdicts snapshot request (limits.withExplanations entries) =
      edgeVerdicts snapshot request limits := by
  obtain ⟨log, hscan, -⟩ := @scanNodes_abridges (nodeVerdict snapshot request limits) entries.toNat
    limits.maxExplanationEntries.toNat (UInt32.le_iff_toNat_le.mp h) snapshot.nodes
  have hscan' : scanNodes (nodeVerdict snapshot request (limits.withExplanations entries))
    (limits.withExplanations entries).maxExplanationEntries.toNat snapshot.nodes = _ := hscan
  unfold edgeVerdicts
  rw [hscan']
  rfl

/-- **A shorter log** holds fewer of the same diagnostics. -/
theorem holds_withExplanations {source destination : NodeId} {built : BuiltView} {entries : UInt32}
    {log : RejectionLog} (hle : entries ≤ limits.maxExplanationEntries)
    (h : buildPlanningView snapshot request (limits.withExplanations entries) source destination =
      .ok (built.withExplanations entries log)) :
    log.Holds (max 1 entries.toNat) (countedCodes snapshot request limits)
      (listedCodes snapshot request limits) := by
  have hholds := buildPlanningView_holds h
  unfold countedCodes listedCodes at hholds ⊢
  rw [edgeVerdicts_withExplanations hle] at hholds
  exact hholds

end Recorded

end PathPlanner
