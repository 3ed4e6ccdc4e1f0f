import PathPlanner.Client.Pairing
import PathPlanner.Client.Session
import PathPlanner.Client.State
import PathPlanner.Codec.Enumerations
import PathPlanner.Codec.Fields
import PathPlanner.Codec.Paths
import PathPlanner.Codec.Texts
import PathPlanner.Coordinator.Bounds
import PathPlanner.Coordinator.Clients
import PathPlanner.Coordinator.Currentness
import PathPlanner.Coordinator.Dispatch
import PathPlanner.Coordinator.Epoch
import PathPlanner.Coordinator.History
import PathPlanner.Coordinator.Messages
import PathPlanner.Coordinator.Notices
import PathPlanner.Coordinator.Publication
import PathPlanner.Coordinator.Readable
import PathPlanner.Coordinator.Registry
import PathPlanner.Coordinator.Reply
import PathPlanner.Coordinator.Saving
import PathPlanner.Coordinator.Sections
import PathPlanner.Coordinator.State
import PathPlanner.Coordinator.System
import PathPlanner.Coordinator.Worker
import PathPlanner.Core.Canonical
import PathPlanner.Core.Decimal
import PathPlanner.Core.Identity
import PathPlanner.Core.Latched
import PathPlanner.Core.Limits
import PathPlanner.Core.Reader
import PathPlanner.Core.Sha256
import PathPlanner.Core.Status
import PathPlanner.Core.Words
import PathPlanner.Library.Admission
import PathPlanner.Library.BlockFold
import PathPlanner.Library.BreadthFirst
import PathPlanner.Library.CompressedRows
import PathPlanner.Library.Decoder
import PathPlanner.Library.Deviation
import PathPlanner.Library.DeviationCourse
import PathPlanner.Library.EdgeList
import PathPlanner.Library.FileSystem
import PathPlanner.Library.FixedWords
import PathPlanner.Library.LabelSetting
import PathPlanner.Library.Leb128
import PathPlanner.Library.Metered
import PathPlanner.Library.Multigraph
import PathPlanner.Library.Numeral
import PathPlanner.Library.ReverseIndex
import PathPlanner.Library.Run
import PathPlanner.Library.SelfDelimiting
import PathPlanner.Library.Sha2
import PathPlanner.Library.SortedList
import PathPlanner.Library.Spread
import PathPlanner.Library.TightWalk
import PathPlanner.Library.Versions
import PathPlanner.Plan.Path
import PathPlanner.Plan.Request
import PathPlanner.Plan.Result
import PathPlanner.Plan.Validation
import PathPlanner.Planner.Compute
import PathPlanner.Planner.HopDistance
import PathPlanner.Planner.NoPath
import PathPlanner.Planner.Outcome
import PathPlanner.Planner.Ranked
import PathPlanner.Planner.Reached
import PathPlanner.Planner.Structural
import PathPlanner.Planner.TypedPath
import PathPlanner.Planner.Verdicts
import PathPlanner.Runtime.AuthorityFilter
import PathPlanner.Runtime.Constraints
import PathPlanner.Runtime.Currentness
import PathPlanner.Runtime.Explanations
import PathPlanner.Runtime.Generations
import PathPlanner.Runtime.HopBound
import PathPlanner.Runtime.Linearizable
import PathPlanner.Runtime.MemberLimit
import PathPlanner.Runtime.NoPath
import PathPlanner.Runtime.Produced
import PathPlanner.Runtime.Provisional
import PathPlanner.Runtime.Replan
import PathPlanner.Runtime.Retention
import PathPlanner.Runtime.SemanticIdentity
import PathPlanner.Runtime.State
import PathPlanner.Runtime.System
import PathPlanner.Runtime.Terminal
import PathPlanner.Runtime.Watermark
import PathPlanner.Runtime.WorkLimits
import PathPlanner.Search.Alternatives
import PathPlanner.Search.Basic
import PathPlanner.Search.Budget
import PathPlanner.Search.Candidates
import PathPlanner.Search.Enumerate
import PathPlanner.Search.Expanded
import PathPlanner.Search.Feasible
import PathPlanner.Search.MemberCounter
import PathPlanner.Search.PassedOver
import PathPlanner.Search.PathCost
import PathPlanner.Search.Plain
import PathPlanner.Search.RawPath
import PathPlanner.Search.Reconfigured
import PathPlanner.Search.Shortest
import PathPlanner.Search.Sound
import PathPlanner.Search.Transit
import PathPlanner.Search.Walk
import PathPlanner.Search.Yen
import PathPlanner.Snapshot.Buildable
import PathPlanner.Snapshot.Completeness
import PathPlanner.Snapshot.Encoding
import PathPlanner.Snapshot.Fabric
import PathPlanner.Snapshot.InsertionOrder
import PathPlanner.Snapshot.Rearrangement
import PathPlanner.Snapshot.Records
import PathPlanner.Snapshot.Representation
import PathPlanner.Snapshot.Supply
import PathPlanner.Store.Ceiling
import PathPlanner.Store.Decode
import PathPlanner.Store.Format
import PathPlanner.Store.Observation
import PathPlanner.Store.PlanIdentity
import PathPlanner.Store.Replacement
import PathPlanner.Store.RoundTrip
import PathPlanner.Store.Soundness
import PathPlanner.Synthetic.Fabric
import PathPlanner.Synthetic.Families
import PathPlanner.Synthetic.Random
import PathPlanner.Synthetic.Topology
import PathPlanner.View.Abridged
import PathPlanner.View.Build
import PathPlanner.View.Eligible
import PathPlanner.View.PlanningView
import PathPlanner.View.RejectionLog
import PathPlanner.View.Rows
import PathPlanner.Wire.Control
import PathPlanner.Wire.Endpoint
import PathPlanner.Wire.Frame
import PathPlanner.Wire.Outcome
import PathPlanner.Wire.Request
import PathPlanner.Wire.Result
import PathPlanner.Wire.Stream
import PathPlanner.Wire.Transport
