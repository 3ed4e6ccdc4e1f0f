import PathPlanner.Search.Transit

/-!
# Candidate enumeration

Without required transit the candidates are enumerated in canonical order by deviation: every
accepted path is searched for paths that leave it at one of its nodes, and the first pending path is
accepted next. Where the request limits the members of a failure domain, the accepted paths are
filtered at the end, and an enumeration that stopped at its ceiling is marked as truncated.

## Main definitions

* `spurBans`, `spurSearch`: the search at one node of an accepted path
* `takeBest`: the first pending path
* `enumerationLoop`, `enumeratePaths`: the loop, and the paths it accepts
* `enumerationResult`: the member limit, the truncation and the result
* `enumerateCandidatePaths`: the whole function
-/

namespace PathPlanner

/-- The accepted and the pending paths, with the work that is left. -/
structure EnumerationState where
  accepted : List RankedRawPath
  pending : List RankedRawPath
  work : Work

/-! ## Spur searches -/

/-- The bans of the search at a position of an accepted path: the nodes before the position, and
the next entries of the accepted paths that visit the same nodes up to it. -/
def spurBans (accepted : List RankedRawPath) (previous : RawPath) (spurIndex : ℕ) : BanSet :=
  accepted.foldl
    (fun bans candidate =>
      -- the beginnings are compared as node sequences
      if candidate.path.nodes.length > spurIndex + 1 &&
          previous.nodes.take (spurIndex + 1) = candidate.path.nodes.take (spurIndex + 1) then
        bans.addAdjacency (candidate.path.adjacency.getD spurIndex 0)
      else bans)
    ((previous.nodes.take spurIndex).foldl BanSet.addNode {})

/-- One spur search is taken from the budget; an error is a budget that is exhausted. -/
def Work.spendSpur (work : Work) : Except Work Work :=
  if work.budget.spurRemaining = 0 then
    .error { work with budget := { work.budget with exhausted := true } }
  else .ok {
    budget := { work.budget with spurRemaining := work.budget.spurRemaining - 1 }
    stats := { work.stats with spurSearches := work.stats.spurSearches + 1 } }

/-- A result that reports an exhausted budget. -/
def workExhausted (detail : String) : EnumerationResult where
  resourceLimit := true
  failure := .workBudgetExhausted
  detail := detail

/-- The path that follows an accepted path up to a position and goes on with a spur. -/
def spurTotal (previous : RawPath) (spurIndex : ℕ) (spur : RawPath) : RawPath where
  nodes := previous.nodes.take (spurIndex + 1) ++ spur.nodes.drop 1
  adjacency := previous.adjacency.take spurIndex ++ spur.adjacency

/-- The pending paths after a spur was found: it is added unless it repeats a node, is already
known or has no representable cost. -/
def addSpur (view : PlanningView) (accepted pending : List RankedRawPath) (total : RawPath) :
    List RankedRawPath :=
  if !rawPathIsSimple total then pending
  else if containsRawPath accepted total || containsRawPath pending total then pending
  else
    match view.computeRawPathCost total with
    | none => pending
    | some cost => pending ++ [⟨total, cost⟩]

/-- The body of the loop over the positions of the last accepted path. -/
def spurSearch (view : PlanningView) (options : EnumerationOptions) (accepted : List RankedRawPath)
    (previous : RawPath) (state : List RankedRawPath × Work) (spurIndex : ℕ) :
    Except (EnumerationResult × Work) (List RankedRawPath × Work) :=
  match state.2.spendSpur with
  | .error work => .error (workExhausted "spur search budget exhausted", work)
  | .ok work =>
    let (spur, work) := shortestPath view (options.remainingHops spurIndex)
      (spurBans accepted previous spurIndex) (previous.nodes.getD spurIndex 0)
      options.destinationView work
    if spur.resourceLimit then
      .error (workExhausted "work budget exhausted during a spur search", work)
    else if !spur.found then .ok (state.1, work)
    else .ok (addSpur view accepted state.1 (spurTotal previous spurIndex spur.path), work)

/-! ## The loop -/

/-- The loop for `best_index`: the first pending path, with its position. -/
def bestPending (view : PlanningView) (first : RankedRawPath) (rest : List RankedRawPath) :
    RankedRawPath × ℕ :=
  (rest.zipIdx 1).foldl (fun best entry => if rankedBefore view entry.1 best.1 then entry else best)
    (first, 0)

/-- The first pending path, and the pending paths without it. -/
def takeBest (view : PlanningView) :
    List RankedRawPath → Option (RankedRawPath × List RankedRawPath)
  | [] => none
  | first :: rest =>
    let (best, bestIndex) := bestPending view first rest
    some (best, (first :: rest).eraseIdx bestIndex)

/-- The loop that accepts paths until enough are accepted or none is pending. -/
def enumerationLoop (view : PlanningView) (options : EnumerationOptions) (wanted : ℕ) :
    ℕ → EnumerationState → Except (EnumerationResult × Work) EnumerationState
  | 0, state => .ok state
  | fuel + 1, state =>
    if state.accepted.length < wanted then
      match state.accepted.getLast? with
      | none => .ok state
      | some previous =>
        match (List.range previous.path.hopCount).foldlM
            (spurSearch view options state.accepted previous.path) (state.pending, state.work) with
        | .error ended => .error ended
        | .ok (pending, work) =>
          match takeBest view pending with
          | none => .ok { state with pending := pending, work := work }
          | some (best, rest) =>
            enumerationLoop view options wanted fuel
              { accepted := state.accepted ++ [best], pending := rest, work := work }
    else .ok state

/-- The number of paths to accept. -/
def EnumerationOptions.wanted (options : EnumerationOptions) : ℕ :=
  if options.enumerationCeiling > 0 then options.enumerationCeiling else options.maxCandidates

/-- The paths accepted without required transit: the shortest path, and the loop from it. -/
def enumeratePaths (view : PlanningView) (options : EnumerationOptions) (work : Work) :
    Except (EnumerationResult × Work) (List RankedRawPath × Work) :=
  let (first, work) := shortestPath view options.maxHops {} options.sourceView
    options.destinationView work
  if first.resourceLimit then .error (workExhausted "", work)
  else if !first.found then
    .error ({ failure := if first.costOverflow then .costOverflow else .noStructuralPath }, work)
  else
    match view.computeRawPathCost first.path with
    | none => .error ({ failure := .costOverflow }, work)
    | some cost =>
      match enumerationLoop view options options.wanted options.wanted
          ⟨[⟨first.path, cost⟩], [], work⟩ with
      | .error ended => .error ended
      | .ok state => .ok (state.accepted, state.work)

/-! ## The result -/

/-- The loop that keeps compliant paths, until enough are kept. -/
def keepCompliant (compliant : RankedRawPath → Bool) (maxCandidates : ℕ) :
    List RankedRawPath → List RankedRawPath → List RankedRawPath
  | [], kept => kept
  | entry :: entries, kept =>
    let kept := if compliant entry then kept ++ [entry] else kept
    if kept.length ≥ maxCandidates then kept
    else keepCompliant compliant maxCandidates entries kept

/-- The end of `EnumerateCandidatePaths`: the member limit, the truncation and the result. -/
def enumerationResult (view : PlanningView) (request : PlanningRequest)
    (options : EnumerationOptions) (accepted : List RankedRawPath) : EnumerationResult :=
  let hitCeiling := accepted.length ≥ options.wanted
  let (accepted, truncated) :=
    match options.domainMemberLimitActive, request.constraints.maxMembersPerFailureDomain with
    | true, some limit =>
      let kept := keepCompliant (fun entry => domainMemberLimitCompliant view entry.path limit.toNat
        request.constraints.failClosedOnUnknownDomains) options.maxCandidates accepted []
      (kept, decide (kept.length < options.maxCandidates) && decide hitCeiling)
    | _, _ => (accepted, false)
  let paths := (accepted.take options.maxCandidates).map (·.path)
  { ok := !paths.isEmpty
    failure := .noStructuralPath
    truncated := truncated
    paths := paths }

/-- `EnumerateCandidatePaths`. -/
def enumerateCandidatePaths (view : PlanningView) (request : PlanningRequest)
    (options : EnumerationOptions) (work : Work) : EnumerationResult × Work :=
  if !request.constraints.requiredTransit.isEmpty then
    enumerateTransit view request.constraints.requiredTransit options work
  else
    match enumeratePaths view options work with
    | .error ended => ended
    | .ok (accepted, work) => (enumerationResult view request options accepted, work)

end PathPlanner
