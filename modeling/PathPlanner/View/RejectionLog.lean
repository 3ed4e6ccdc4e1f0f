import PathPlanner.Core.Status
import PathPlanner.Snapshot.Records

/-!
# Rejection log

Why elements were excluded from a planning view. Operational exclusions are counted per diagnostic
with a few example subjects; exclusions named by the constraint set are recorded one by one, up to
a limit. A cause recorded in either store is a cause.

## Main definitions

* `ExplanationEntry`, `RejectionExplanation`: rendered explanations
* `RejectionLog`: the log, with `aggregate`, `explicit`, `contains`, `count` and `render`

## Main results

* `RejectionLog.exists_code_countOccurrence`: counting a rejection adds its cause and no other
* `RejectionLog.CountsAtMost`: a rejection adds at most one occurrence to an entry
-/

namespace PathPlanner

/-- `ExplanationEntry`. -/
structure ExplanationEntry where
  code : DiagnosticCode
  detail : String

/-- `RejectionExplanation`. -/
structure RejectionExplanation where
  code : DiagnosticCode
  subject : SubjectKey
  detail : String
  occurrences : ℕ := 1

/-- `kRejectionExampleLimit`. -/
def rejectionExampleLimit : ℕ := 4

/-- `RejectionLog::AggregateEntry` of a diagnostic that is present. -/
structure AggregateEntry where
  code : DiagnosticCode
  count : ℕ
  examples : List SubjectKey
  detail : String

/-- `RejectionLog`: the present aggregates in the order of their diagnostics, and the explicit
entries in the order of recording. -/
structure RejectionLog where
  aggregates : List AggregateEntry := []
  explicitEntries : List RejectionExplanation := []
  maxEntries : ℕ := 256

namespace RejectionLog

/-- The constructor `RejectionLog(max_entries)`. -/
def new (maxEntries : ℕ) : RejectionLog :=
  { maxEntries := if maxEntries = 0 then 1 else maxEntries }

/-- The aggregates with one more occurrence of a diagnostic. -/
def countOccurrence (code : DiagnosticCode) (subject : SubjectKey) (detail : String) :
    List AggregateEntry → List AggregateEntry
  | [] => [⟨code, 1, [subject], detail⟩]
  | entry :: entries =>
    if entry.code = code then
      { entry with
        count := entry.count + 1
        examples :=
          if entry.examples.length < rejectionExampleLimit then entry.examples ++ [subject]
          else entry.examples } :: entries
    else if code.value < entry.code.value then ⟨code, 1, [subject], detail⟩ :: entry :: entries
    else entry :: countOccurrence code subject detail entries

/-- `RejectionLog::Aggregate`. -/
def aggregate (log : RejectionLog) (code : DiagnosticCode) (subject : SubjectKey)
    (detail : String) : RejectionLog :=
  { log with aggregates := countOccurrence code subject detail log.aggregates }

/-- `RejectionLog::Explicit`. -/
def explicit (log : RejectionLog) (code : DiagnosticCode) (subject : SubjectKey)
    (detail : String) : RejectionLog :=
  if log.explicitEntries.length ≥ log.maxEntries then log
  else { log with explicitEntries := log.explicitEntries ++ [{ code, subject, detail }] }

/-- `RejectionLog::Contains`. -/
def contains (log : RejectionLog) (code : DiagnosticCode) : Bool :=
  log.aggregates.any (·.code = code) || log.explicitEntries.any (·.code = code)

/-- `RejectionLog::Count`. -/
def count (log : RejectionLog) (code : DiagnosticCode) : ℕ :=
  ((log.aggregates.filter (·.code = code)).map (·.count)).sum +
    ((log.explicitEntries.filter (·.code = code)).map (·.occurrences)).sum

/-- An aggregate as `RejectionLog::Render` shows it. -/
def renderAggregate (entry : AggregateEntry) : RejectionExplanation where
  code := entry.code
  subject := entry.examples.headD ⟨.node, Vector.replicate 16 0⟩
  detail :=
    if entry.examples.isEmpty then entry.detail
    else entry.detail ++ " (examples:" ++
      entry.examples.foldl (fun text example_ => text ++ " " ++ example_.toString) "" ++ ")"
  occurrences := entry.count

/-- `RejectionLog::Render`: the aggregates, then the explicit entries. -/
def render (log : RejectionLog) : List RejectionExplanation :=
  log.aggregates.map renderAggregate ++ log.explicitEntries

theorem exists_code_countOccurrence {code c : DiagnosticCode} {subject : SubjectKey}
    {detail : String} {entries : List AggregateEntry} :
    (∃ e ∈ countOccurrence code subject detail entries, e.code = c) ↔
      c = code ∨ ∃ e ∈ entries, e.code = c := by
  induction entries with
  | nil => simp [countOccurrence, eq_comm]
  | cons entry entries ih =>
    unfold countOccurrence
    by_cases he : entry.code = code
    · rw [if_pos he, List.exists_mem_cons_iff, List.exists_mem_cons_iff, he, ← or_assoc, eq_comm,
        or_self]
    · rw [if_neg he]
      by_cases hlt : code.value < entry.code.value
      · rw [if_pos hlt, List.exists_mem_cons_iff, eq_comm]
      · rw [if_neg hlt, List.exists_mem_cons_iff, ih, List.exists_mem_cons_iff, or_left_comm]

/-! ## Occurrences -/

/-- No entry has more than `n` occurrences. -/
structure CountsAtMost (log : RejectionLog) (n : ℕ) : Prop where
  aggregates : ∀ e ∈ log.aggregates, e.count ≤ n
  explicitEntries : ∀ e ∈ log.explicitEntries, e.occurrences ≤ n

namespace CountsAtMost

variable {log : RejectionLog} {n : ℕ}

theorem new (maxEntries n : ℕ) : (RejectionLog.new maxEntries).CountsAtMost n :=
  ⟨fun _ h => absurd h List.not_mem_nil, fun _ h => absurd h List.not_mem_nil⟩

theorem mono {m : ℕ} (h : log.CountsAtMost n) (hle : n ≤ m) : log.CountsAtMost m :=
  ⟨fun e he => (h.aggregates e he).trans hle, fun e he => (h.explicitEntries e he).trans hle⟩

theorem count_le_of_mem_countOccurrence {code : DiagnosticCode} {subject : SubjectKey}
    {detail : String} {entries : List AggregateEntry} (h : ∀ e ∈ entries, e.count ≤ n) :
    ∀ e ∈ countOccurrence code subject detail entries, e.count ≤ n + 1 := by
  induction entries with
  | nil =>
    intro e he
    obtain rfl := List.mem_singleton.mp he
    exact Nat.succ_le_succ (Nat.zero_le n)
  | cons entry entries ih =>
    obtain ⟨hentry, hentries⟩ := List.forall_mem_cons.mp h
    have hlater : ∀ e ∈ entries, e.count ≤ n + 1 := fun e he => (hentries e he).trans n.le_succ
    unfold countOccurrence
    by_cases he : entry.code = code
    · rw [if_pos he]
      exact List.forall_mem_cons.mpr ⟨Nat.succ_le_succ hentry, hlater⟩
    · rw [if_neg he]
      by_cases hlt : code.value < entry.code.value
      · rw [if_pos hlt]
        refine List.forall_mem_cons.mpr ⟨Nat.succ_le_succ (Nat.zero_le n), ?_⟩
        exact List.forall_mem_cons.mpr ⟨hentry.trans n.le_succ, hlater⟩
      · rw [if_neg hlt]
        exact List.forall_mem_cons.mpr ⟨hentry.trans n.le_succ, ih hentries⟩

/-- Aggregating a rejection adds at most one occurrence to an entry. -/
theorem aggregate (h : log.CountsAtMost n) (code : DiagnosticCode) (subject : SubjectKey)
    (detail : String) : (log.aggregate code subject detail).CountsAtMost (n + 1) :=
  ⟨count_le_of_mem_countOccurrence h.aggregates,
    fun e he => (h.explicitEntries e he).trans n.le_succ⟩

/-- Recording a rejection adds an entry with one occurrence. -/
theorem explicit (h : log.CountsAtMost n) (code : DiagnosticCode) (subject : SubjectKey)
    (detail : String) : (log.explicit code subject detail).CountsAtMost (n + 1) := by
  have hlater := h.mono n.le_succ
  unfold RejectionLog.explicit
  split_ifs
  · exact hlater
  · refine ⟨hlater.aggregates, fun e he => ?_⟩
    rcases List.mem_append.mp he with he | he
    · exact hlater.explicitEntries e he
    · obtain rfl := List.mem_singleton.mp he
      exact Nat.succ_le_succ (Nat.zero_le n)

/-- What is shown has as many occurrences as the entries. -/
theorem render (h : log.CountsAtMost n) : ∀ r ∈ log.render, r.occurrences ≤ n := by
  intro r hr
  rcases List.mem_append.mp hr with hr | hr
  · obtain ⟨e, he, rfl⟩ := List.mem_map.mp hr
    exact h.aggregates e he
  · exact h.explicitEntries r hr

end CountsAtMost

end RejectionLog

end PathPlanner
