import ShipInfer.Backends.Attachments
import ShipInfer.Backends.BuildOnce
import ShipInfer.Backends.OneUser
import ShipInfer.Barrier.Waiting
import ShipInfer.Batching.Isolation
import ShipInfer.Detect.Agreement
import ShipInfer.Elements.Union
import ShipInfer.Engine.Resolution
import ShipInfer.Events.Agreement
import ShipInfer.Identity.Assign
import ShipInfer.Ingest.Sticky
import ShipInfer.Ingest.Twins
import ShipInfer.Perception.Announcing
import ShipInfer.Perception.Overlap
import ShipInfer.Perception.Settling
import ShipInfer.Plane.Settlement
import ShipInfer.Queue.Agreement
import ShipInfer.Reassembly.Agreement
import ShipInfer.Ring.Protocol
import ShipInfer.Runners.Accounting
import ShipInfer.Runners.Delivery
import ShipInfer.Runners.Grouping
import ShipInfer.Runners.Order
import ShipInfer.Runners.Reporting
import ShipInfer.Runners.Reservations
import ShipInfer.Scheduling.Affinity
import ShipInfer.Scheduling.Sharing
import ShipInfer.Spill.Answering
import ShipInfer.Spill.Settlement
import ShipInfer.Tracking.Order
import ShipInfer.Lib.Layout
import ShipInfer.Lib.Texts
import ShipInfer.Spill.Wire
import ShipInfer.Core.Registry
import ShipInfer.Runtime.Caching
import ShipInfer.Elements.Minting
import ShipInfer.Events.Records
import ShipInfer.Engine.Tracing
import ShipInfer.Engine.Control
import ShipInfer.Tracking.Restart
import ShipInfer.Runners.Placement
import ShipInfer.Engine.Cache
import ShipInfer.Engine.Hits
import ShipInfer.Lib.Pattern
import ShipInfer.Core.Redact
import ShipInfer.Core.Veil
import ShipInfer.Core.Hiding
import ShipInfer.Queue.Fifo
import ShipInfer.Queue.Turns
import ShipInfer.Queue.Emptiness
import ShipInfer.Scheduling.Spilling
import ShipInfer.Identity.Issuance
import ShipInfer.Kernels.Geometry
import ShipInfer.Kernels.Intake
import ShipInfer.Kernels.Nv12
import ShipInfer.Segment.MaskArea
import ShipInfer.Segment.Parity
import ShipInfer.Runtime.Landing
import ShipInfer.Identity.Gate
import ShipInfer.Identity.Partition
import ShipInfer.Identity.Refusal
import ShipInfer.Reassembly.Fairness
import ShipInfer.Ring.Rotation
import ShipInfer.Topology.Ordering
import ShipInfer.Engine.Execution
import ShipInfer.Engine.Terminal
import ShipInfer.Spill.Rejection
import ShipInfer.Engine.Progress
import ShipInfer.Engine.Supply
import ShipInfer.Lib.Doubles
import ShipInfer.Lib.Lines
import ShipInfer.Topology.Plan
import ShipInfer.Lib.Weights
import ShipInfer.Ring.Regions
import ShipInfer.Scheduling.Limits
import ShipInfer.Engine.Recency
import ShipInfer.Lib.Greedy
import ShipInfer.Scheduling.Balance
import ShipInfer.Topology.Accepted
import ShipInfer.Topology.Canonical
import ShipInfer.Launch.Reaping
import ShipInfer.Spill.Replies
