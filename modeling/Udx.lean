import Udx.Packet
import Udx.AckTracker
import Udx.PacketManager
import Udx.AckAgreement
import Udx.FlowLimits
import Udx.FlowWidth
import Udx.StreamHistory
import Udx.StreamReassembly
import Udx.LockOrder
import Udx.Connection
import Udx.Timers
import Udx.StreamSpans
import Udx.Reception
import Udx.Reencoding
import Udx.StreamLifecycle
import Udx.WriteCalls
import Udx.ConcurrentWrites
import Udx.Amplification
import Udx.PathMigration
import Udx.PathSize
import Udx.StreamTable
import Udx.Teardown
import Udx.Recovery
import Udx.PacketTable
import Udx.AckWalk
import Udx.CongestionWindow
import Udx.Acceptance
import Udx.Coverage
import Udx.WindowGate
import Udx.AckDuty
import Udx.RttEstimate
import Udx.DecodeSafety
import Udx.MtuSearch
import Udx.MtuProbes
import Udx.HeldChunks
import Udx.ReceiveMemory
import Udx.EndOfStream
import Udx.Segmenting
import Udx.PathAnswer
import Udx.Routing
import Udx.Safekeeping
import Udx.FinDelivery
import Udx.WindowOffset
import Udx.BatchConn
import Udx.PacerBudget
import Udx.EarlyPackets
import Udx.Speech
import Udx.StreamSteps
import Udx.StreamSlots
import Udx.Integrity
import Udx.Peers
import Udx.World
import Udx.Completion
import Udx.BlockedCalls
import Udx.HonestAcks
import Udx.InboundQueue
import Udx.VersionNegotiation
