import CmsProxy.BigEndian
import CmsProxy.JsonValue
import CmsProxy.Decimal
import CmsProxy.JsonText
import CmsProxy.Runs
import CmsProxy.Simulation
import CmsProxy.Interfaces
import CmsProxy.Binary32
import CmsProxy.CueingMath
import CmsProxy.CueingBounds
import CmsProxy.Converter
import CmsProxy.State
import CmsProxy.Engine
import CmsProxy.Tcp
import CmsProxy.Orders
import CmsProxy.Answers
import CmsProxy.Reference
import CmsProxy.Delivery
import CmsProxy.Engagement
import CmsProxy.Acceptance
import CmsProxy.Extent
import CmsProxy.Calls
import CmsProxy.Destinations
import CmsProxy.Stream
import CmsProxy.Connections
import CmsProxy.PrefixCode
import CmsProxy.Registers
import CmsProxy.Commands
import CmsProxy.Framing
import CmsProxy.Prefixes
import CmsProxy.ReadSafety
import CmsProxy.StateMerge
import CmsProxy.NackReason
import CmsProxy.Receiver
import CmsProxy.EventLoop
import CmsProxy.Main
import CmsProxy.Shutdown
import CmsProxy.Interleaving
import CmsProxy.Records
import CmsProxy.Progress
import CmsProxy.Arrivals
import CmsProxy.Layout
import CmsProxy.Encoder
import CmsProxy.RoundTrip
import CmsProxy.Batches
import CmsProxy.Config
import CmsProxy.Loading
import CmsProxy.Configurations
import CmsProxy.Turns
import CmsProxy.ExactReal
import CmsProxy.Cueing
import CmsProxy.Bearings
import CmsProxy.Directions
import CmsProxy.Nearest
import CmsProxy.WrapLimits
import CmsProxy.NonFinite
import CmsProxy.MissingNumbers
import CmsProxy.AckSender
import CmsProxy.Wire
import CmsProxy.Proxy
import CmsProxy.Verdicts
import CmsProxy.EndToEnd
import CmsProxy.Reuse
import CmsProxy.Accuracy
