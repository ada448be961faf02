import IncEmulation.Lib.Machine
import IncEmulation.SwitchMain
import IncEmulation.Aggregation
import IncEmulation.Wraparound
import IncEmulation.Reconfiguration
import IncEmulation.Completion
import IncEmulation.Overrun
import IncEmulation.FrameCodec
import IncEmulation.NonTermination.RootRun
import IncEmulation.NonTermination.ByteOrder
import IncEmulation.Acknowledging
import IncEmulation.Framing
import IncEmulation.TopoParser
import IncEmulation.SlicingByEight
import IncEmulation.Containment
import IncEmulation.Rejection
import IncEmulation.Exchange
import IncEmulation.WriteCollectives
import IncEmulation.CommunicatorBuffers
import IncEmulation.EndToEnd
import IncEmulation.Posting
import IncEmulation.Pairing
import IncEmulation.DownstreamAck
import IncEmulation.NonTermination.Dispatch
import IncEmulation.SwitchInfo
import IncEmulation.GroupSession
import IncEmulation.FileTransfer
import IncEmulation.BroadcastAcks
import IncEmulation.Switch.Retransmission
import IncEmulation.Switch.Recovery
import IncEmulation.Switch.Overruns
import IncEmulation.ThreadPool.Sending
import IncEmulation.ThreadPool.Settling
import IncEmulation.Answers
import IncEmulation.Collectives
import IncEmulation.OneKind
import IncEmulation.Returning
