import PathPlanner.Core.Status

/-!
# Resource limits

The configured bounds with their defaults, and the check that a configuration is coherent.

## Main definitions

* `ResourceLimits`: the bounds, each with its default
* `validateLimits`: the first incoherence of a configuration
-/

namespace PathPlanner

/-- `ResourceLimits`. -/
structure ResourceLimits where
  maxNodes : UInt32 := 1048576
  maxEdges : UInt32 := 4194304
  maxEndpoints : UInt32 := 1048576
  maxPortsPerNode : UInt32 := 4096
  maxLinkStateRecords : UInt32 := 4194304
  maxPortStateRecords : UInt32 := 4194304
  maxCapabilityBindings : UInt32 := 4194304
  maxFailureDomains : UInt32 := 262144
  maxMembersPerFailureDomain : UInt32 := 65536
  maxCandidatesPerRequest : UInt32 := 64
  maxHops : UInt32 := 512
  maxConstraintsTotal : UInt32 := 4096
  maxForbiddenIds : UInt32 := 2048
  maxRequiredIds : UInt32 := 256
  maxRequiredAnySets : UInt32 := 64
  maxMembersInAnySet : UInt32 := 256
  maxTransitAlternatives : UInt32 := 1024
  maxTransitCombinations : UInt32 := 64
  maxCapabilityRequirements : UInt32 := 256
  maxForbiddenDomainClasses : UInt32 := 256
  maxExpandedStates : UInt64 := 50000000
  maxSpurSearches : UInt64 := 4000000
  maxQueueEntries : UInt64 := 20000000
  maxSearchStates : UInt64 := 4000000
  maxRetainedPlans : UInt32 := 4096
  maxHistoryEntries : UInt32 := 64
  maxExplanationEntries : UInt32 := 256
  maxReverseDependencyEntries : UInt32 := 1048576
  maxPersistedPlans : UInt32 := 65536
  maxEnumerationCandidates : UInt32 := 256
  maxFrameBytes : UInt32 := 1048576
  maxSessions : UInt32 := 256
  maxConcurrentRequests : UInt32 := 256
  maxWorkers : UInt32 := 64
  receiveBoundMs : UInt32 := 15000
  sendBoundMs : UInt32 := 15000
  connectBoundMs : UInt32 := 10000

/-- `ValidateLimits`. -/
def validateLimits (limits : ResourceLimits) : Option DiagnosticCode :=
  if limits.maxNodes = 0 ∨ limits.maxEdges = 0 ∨ limits.maxEndpoints = 0 ∨
      limits.maxPortsPerNode = 0 then
    some .graphTooLarge
  else if limits.maxCandidatesPerRequest = 0 ∨
      limits.maxCandidatesPerRequest.toNat > maxCandidateRank then
    some .candidateLimitExceeded
  else if limits.maxHops = 0 ∨ limits.maxHops.toNat > maxHopCount then
    some .maxHopsExceeded
  else if limits.maxFrameBytes < 64 ∨ limits.maxFrameBytes > 268435456 then
    some .protocolMalformedFrame
  else if limits.maxSessions = 0 ∨ limits.maxWorkers = 0 ∨ limits.maxConcurrentRequests = 0 then
    some .protocolSessionLimit
  else if limits.receiveBoundMs = 0 ∨ limits.connectBoundMs = 0 ∨ limits.sendBoundMs = 0 then
    some .protocolReceiveBoundExceeded
  else if limits.maxExpandedStates = 0 ∨ limits.maxSpurSearches = 0 ∨
      limits.maxQueueEntries = 0 then
    some .workBudgetExhausted
  else if limits.maxRetainedPlans = 0 ∨ limits.maxHistoryEntries = 0 ∨
      limits.maxExplanationEntries = 0 then
    some .persistenceLimitExceeded
  else if limits.maxConstraintsTotal = 0 ∨ limits.maxForbiddenIds = 0 ∨
      limits.maxRequiredIds = 0 then
    some .constraintCountExceeded
  else if limits.maxRequiredAnySets = 0 ∨ limits.maxMembersInAnySet = 0 then
    some .constraintCountExceeded
  else none

/-- `Exceeds`: a count above a limit. -/
def exceeds (count : ℕ) (limit : UInt32) : Bool := count > limit.toNat

/-- A coherent configuration retains at least one plan. -/
theorem maxRetainedPlans_pos {limits : ResourceLimits} (h : validateLimits limits = none) :
    0 < limits.maxRetainedPlans.toNat := by
  by_contra hzero
  have hlimit : limits.maxRetainedPlans = 0 := UInt32.toNat_inj.mp (Nat.eq_zero_of_not_pos hzero)
  unfold validateLimits at h
  split_ifs at h with _ _ _ _ _ _ _ hretained
  exact hretained (Or.inl hlimit)

/-- The defaults are coherent. -/
example : validateLimits {} = none := by decide

end PathPlanner
