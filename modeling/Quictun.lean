import Quictun.Run
import Quictun.IdleTracker
import Quictun.IdleSweep
import Quictun.Stream
import Quictun.Tunnel
import Quictun.Stack
import Quictun.TunnelCore
import Quictun.TunnelSocket
import Quictun.TunnelFin
import Quictun.TunnelBytes
import Quictun.TunnelWake
import Quictun.TunnelStall
import Quictun.Preamble
import Quictun.ServerConnection
import Quictun.ServerAuth
import Quictun.ClientDriver
import Quictun.ClientRouting
import Quictun.IntervalSet
import Quictun.ReceiveStream
import Quictun.StreamCredit
import Quictun.SessionCredit
import Quictun.ControlFrames
import Quictun.Isolation
import Quictun.TunnelFinish
import Quictun.Authentication
import Quictun.PreambleAgreement
import Quictun.ServerStreams
import Quictun.TunnelOwner
import Quictun.ClientTunnels
import Quictun.ServerTargets
import Quictun.ClientSockets
import Quictun.BlockedWriters
import Quictun.ServerDriver
import Quictun.TunnelDepth
import Quictun.PollDelivery
import Quictun.ReceivedPackets
import Quictun.StreamIdManager
import Quictun.StreamLimits
import Quictun.ControlFrameLedger
import Quictun.FinalSize
import Quictun.SendStream
import Quictun.WriteBlockedStreams
import Quictun.ReceiveWindow
import Quictun.FlowControl
import Quictun.PeerStream
import Quictun.StreamCount
import Quictun.Word
import Quictun.PacketNumber
import Quictun.QuicIntervalSet
import Quictun.QuicIntervalSetOps
import Quictun.AckFrame
import Quictun.AckFrameCodec
import Quictun.AckFrameRoom
import Quictun.StreamFrameCodec
import Quictun.BatchDelivery
import Quictun.Async
import Quictun.AcceptedTcpSocket
import Quictun.AcceptedTcpContract
import Quictun.AckFrameUpdate
import Quictun.BinarySearch
import Quictun.QuicIntervalDeque
import Quictun.SendBuffer
import Quictun.SendBufferSlices
import Quictun.SendBufferContract
import Quictun.SentStream
import Quictun.SentStreamContract
import Quictun.BlockRing
import Quictun.SequencerBuffer
import Quictun.SequencerBufferReceive
import Quictun.SequencerBufferContract
import Quictun.Sequencer
import Quictun.SequencerContract
import Quictun.StreamTransfer
import Quictun.PacketNumberIndexedQueue
import Quictun.SendBufferRefusal
import Quictun.UnackedPackets
import Quictun.AlarmQueue
import Quictun.FrameAggregation
import Quictun.LossDetection
import Quictun.WriteBlockedList
