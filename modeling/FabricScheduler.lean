import FabricScheduler.Library.TransitionSystem
import FabricScheduler.Scheduler.System
import FabricScheduler.Scheduler.Sections
import FabricScheduler.Scheduler.Steps
import FabricScheduler.Scheduler.Authority
import FabricScheduler.Scheduler.Ledger
import FabricScheduler.Scheduler.Simulation
import FabricScheduler.Scheduler.Lifecycle
import FabricScheduler.Scheduler.History
import FabricScheduler.Scheduler.Launch
import FabricScheduler.Scheduler.Commitment
import FabricScheduler.Scheduler.Fencing
import FabricScheduler.Scheduler.Uniqueness
import FabricScheduler.Scheduler.Evidence
import FabricScheduler.Library.ByteCodec
import FabricScheduler.Persistence.Coding
import FabricScheduler.Persistence.Records
import FabricScheduler.Persistence.RoundTrip
import FabricScheduler.Persistence.CandidateRecord
import FabricScheduler.Persistence.File
import FabricScheduler.Scheduler.Durability
import FabricScheduler.Persistence.Recovery
import FabricScheduler.Library.Digest
import FabricScheduler.Protocol.Frame
import FabricScheduler.Protocol.Channel
import FabricScheduler.Persistence.Acceptance
import FabricScheduler.Persistence.Contract
import FabricScheduler.Scheduler.Cancellation
import FabricScheduler.Scheduler.Revalidation
import FabricScheduler.Scheduler.Restoration
import FabricScheduler.Scheduler.Reissue
import FabricScheduler.Scheduler.Staleness
import FabricScheduler.Coordinator.System
import FabricScheduler.Coordinator.Fencing
import FabricScheduler.Coordinator.Placement
import FabricScheduler.Scheduler.Admission
import FabricScheduler.Scheduler.Handoff
import FabricScheduler.Library.Newest
import FabricScheduler.Library.Tickets
import FabricScheduler.Persistence.Tampering
import FabricScheduler.Scheduler.Confluence
import FabricScheduler.Library.Rounding
import FabricScheduler.Library.Binary64
import FabricScheduler.Library.Binary64Arithmetic
import FabricScheduler.Core.DoubleOrder
import FabricScheduler.Model.Scores
import FabricScheduler.Scheduler.Preference
import FabricScheduler.Library.Comparator
import FabricScheduler.Scheduler.Pass
import FabricScheduler.Scheduler.Store
import FabricScheduler.Library.Ascent
import FabricScheduler.Scheduler.Requests
import FabricScheduler.Coordinator.Connection
import FabricScheduler.Scheduler.Supersession
import FabricScheduler.Coordinator.Disconnection
import FabricScheduler.Core.ExactCost
import FabricScheduler.Scheduler.Dominance
import FabricScheduler.Library.Binary64Quotient
import FabricScheduler.Library.Binary64Exact
import FabricScheduler.Core.DoubleExact
import FabricScheduler.Scheduler.TopologyCost
import FabricScheduler.Scheduler.FiniteScores
import FabricScheduler.Library.Trail
import FabricScheduler.Scheduler.Advance
import FabricScheduler.Persistence.Trailing
import FabricScheduler.Scheduler.Agreement
import FabricScheduler.Scheduler.Isolation
import FabricScheduler.Scheduler.PlanRecord
import FabricScheduler.Scheduler.Conservation
import FabricScheduler.Coordinator.Broker
import FabricScheduler.Scheduler.Progress
import FabricScheduler.Scheduler.Failover
import FabricScheduler.Coordinator.Failover
import FabricScheduler.Coordinator.Wire
import FabricScheduler.Persistence.Legibility
import FabricScheduler.Coordinator.Answers
import FabricScheduler.Coordinator.Hearing
import FabricScheduler.Protocol.Stream
import FabricScheduler.Persistence.Truncation
import FabricScheduler.Persistence.Resaving
import FabricScheduler.Scheduler.Conversation
import FabricScheduler.Scheduler.Relaxation
