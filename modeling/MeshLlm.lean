import MeshLlm.ActivationCodec.HalfFloat
import MeshLlm.Admission.SignedPayloads
import MeshLlm.Cache.CacheInvariant
import MeshLlm.Cache.CacheRefinement
import MeshLlm.Cache.CacheRuns
import MeshLlm.Cache.RadixCacheMaps
import MeshLlm.Cache.RadixCanonical
import MeshLlm.Cache.RadixNormalize
import MeshLlm.Cache.RadixStats
import MeshLlm.Cache.RadixTraversal
import MeshLlm.Cache.ResidentLookup
import MeshLlm.CacheL2.Refinement
import MeshLlm.CacheGen.ContainerRoundTrip
import MeshLlm.CacheGen.Frequencies
import MeshLlm.CacheL3.Exhaustion
import MeshLlm.CacheL3.SpillCutting
import MeshLlm.CachePolicy.ExactShares
import MeshLlm.Coordinator.ClaimFence
import MeshLlm.Coordinator.FenceRuns
import MeshLlm.Coordinator.Rebalance
import MeshLlm.Generation.AdmissionRuns
import MeshLlm.Generation.LaneRuns
import MeshLlm.Library.AssocMap
import MeshLlm.Library.CommonPrefix
import MeshLlm.Library.Comparator
import MeshLlm.Library.Contiguous
import MeshLlm.Library.Effect
import MeshLlm.Library.Saturating
import MeshLlm.Library.Substring
import MeshLlm.Library.Table
import MeshLlm.Library.Transition
import MeshLlm.LinearProposal.Equivalence
import MeshLlm.Mesh.RelayRuns
import MeshLlm.PackageFormat.Identity
import MeshLlm.PackageFormat.Paths
import MeshLlm.PackageFormat.TensorStorage
import MeshLlm.Payments.DailyBudget
import MeshLlm.Payments.ForgivenRuns
import MeshLlm.Payments.RequestCap
import MeshLlm.Payments.ServingRuns
import MeshLlm.Reconciliation.IntentRuns
import MeshLlm.Reconciliation.SingleFlight
import MeshLlm.ReleaseFooter.FooterRoundTrip
import MeshLlm.Routing.CacheRuns
import MeshLlm.Routing.TargetOrder
import MeshLlm.Runtime.CapacityRuns
import MeshLlm.Runtime.LaneCalls
import MeshLlm.RuntimeEvents.EngineTerminals
import MeshLlm.RuntimeEvents.ReducerRuns
import MeshLlm.RuntimeEvents.ReplayStream
import MeshLlm.RuntimeEvents.SlotRuns
import MeshLlm.RuntimeEvents.SubscriberRuns
import MeshLlm.Scheduler.Admission
import MeshLlm.Scheduler.AdmissionLog
import MeshLlm.Scheduler.CandidateOrder
import MeshLlm.Scheduler.Capacity
import MeshLlm.Scheduler.Conservation
import MeshLlm.Scheduler.PlanShape
import MeshLlm.Scheduler.PositionFidelity
import MeshLlm.Scheduler.PreemptionOrder
import MeshLlm.Scheduler.Runnable
import MeshLlm.Speculative.SerialVerify
import MeshLlm.Speculative.SuffixProposer
import MeshLlm.StageWire.Forwarding
import MeshLlm.StageWire.Replies
import MeshLlm.Streaming.ToolCallStream
import MeshLlm.ModelRef.QuantSelector
import MeshLlm.Library.Utf8
import MeshLlm.Streaming.TextCollector
import MeshLlm.NativeMtp.CompositeBuffer
import MeshLlm.Streaming.ToolEmulation
import MeshLlm.ModelRef.References
import MeshLlm.ModelRef.ReferenceUrls
