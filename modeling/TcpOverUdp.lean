import TcpOverUdp.Foundations.MachineInt
import TcpOverUdp.Foundations.MinHeap
import TcpOverUdp.Foundations.FuelLoop
import TcpOverUdp.Foundations.QueueLoop
import TcpOverUdp.Foundations.Refinement
import TcpOverUdp.Foundations.ByteWords
import TcpOverUdp.Foundations.Pieces
import TcpOverUdp.Foundations.WrapCounter
import TcpOverUdp.Foundations.Smoothing
import TcpOverUdp.Foundations.Cyclic
import TcpOverUdp.Foundations.PointerUse
import TcpOverUdp.Model.CircBuf
import TcpOverUdp.Model.RingBuf
import TcpOverUdp.Model.Header
import TcpOverUdp.Model.Congestion
import TcpOverUdp.Model.SockTable
import TcpOverUdp.Model.Timer
import TcpOverUdp.Model.Process
import TcpOverUdp.Model.ProcessTou
import TcpOverUdp.Model.PacketPointer
import TcpOverUdp.Model.RunEvents
import TcpOverUdp.Model.Tou
import TcpOverUdp.Model.Close
import TcpOverUdp.Model.Sockets
import TcpOverUdp.Model.Locks
import TcpOverUdp.Model.Network
import TcpOverUdp.Proof.ByteQueue
import TcpOverUdp.Proof.BufferCalls
import TcpOverUdp.Proof.GuardedInsert
import TcpOverUdp.Proof.ChunkedReads
import TcpOverUdp.Proof.Codec
import TcpOverUdp.Proof.Wraparound
import TcpOverUdp.Proof.Windows
import TcpOverUdp.Proof.WindowGrowth
import TcpOverUdp.Proof.RttEstimate
import TcpOverUdp.Proof.ApplicationRead
import TcpOverUdp.Proof.Decoding
import TcpOverUdp.Proof.PayloadLength
import TcpOverUdp.Proof.Segment
import TcpOverUdp.Proof.Send
import TcpOverUdp.Proof.TimerHeap
import TcpOverUdp.Proof.Recovery
import TcpOverUdp.Proof.Retransmission
import TcpOverUdp.Proof.Automaton
import TcpOverUdp.Proof.PureAck
import TcpOverUdp.Proof.Sides
import TcpOverUdp.Proof.SenderRuns
import TcpOverUdp.Proof.TimerCoverage
import TcpOverUdp.Proof.Exits
import TcpOverUdp.Proof.Receiver
import TcpOverUdp.Proof.StreamIntegrity
import TcpOverUdp.Proof.DelayedAck
import TcpOverUdp.Proof.TimerExpiry
import TcpOverUdp.Proof.InOrder
import TcpOverUdp.Proof.Sessions
import TcpOverUdp.Proof.AckMachine
import TcpOverUdp.Proof.SenderSteps
import TcpOverUdp.Proof.AckEvents
import TcpOverUdp.Proof.PacketPointer
import TcpOverUdp.Proof.RunEnds
import TcpOverUdp.Proof.Handshake
import TcpOverUdp.Proof.RcvNxt
import TcpOverUdp.Proof.OutOfOrder
import TcpOverUdp.Proof.Delivery
import TcpOverUdp.Proof.Lockstep
import TcpOverUdp.Proof.EndToEnd
import TcpOverUdp.Proof.AdvertisedWindow
import TcpOverUdp.Proof.FastRetransmit
import TcpOverUdp.Proof.SharedHeap
import TcpOverUdp.Proof.Karn
import TcpOverUdp.Proof.RecoveryChain
import TcpOverUdp.Proof.SocketTables
import TcpOverUdp.Proof.TimerLifetime
import TcpOverUdp.Proof.OneSocket
import TcpOverUdp.Proof.Deadlock
import TcpOverUdp.Proof.StalledRecovery
import TcpOverUdp.Proof.DrainLoop
import TcpOverUdp.Proof.UnassignedPacket
import TcpOverUdp.Proof.RunConsumes
import TcpOverUdp.Model.Interleaving
import TcpOverUdp.Proof.HostMoves
import TcpOverUdp.Proof.HostSteps
import TcpOverUdp.Proof.HostStreams
import TcpOverUdp.Proof.HostAtomic
import TcpOverUdp.Proof.HostReceiver
import TcpOverUdp.Proof.HostRuns
import TcpOverUdp.Proof.HostSender
import TcpOverUdp.Proof.HostTimers
import TcpOverUdp.Proof.HostCoverage
import TcpOverUdp.Proof.HostAcks
import TcpOverUdp.Proof.HostOrder
import TcpOverUdp.Proof.HostRepair
import TcpOverUdp.Model.TimerThread
import TcpOverUdp.Model.Demo
import TcpOverUdp.Proof.FileTransfer
import TcpOverUdp.Proof.TimerThread
