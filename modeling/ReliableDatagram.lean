import ReliableDatagram.SeqNum
import ReliableDatagram.Duration
import ReliableDatagram.PowerOfTwo
import ReliableDatagram.Fault
import ReliableDatagram.Allocation
import ReliableDatagram.Address.Basic
import ReliableDatagram.Address.Text
import ReliableDatagram.Address.Reading
import ReliableDatagram.Packet.BigEndian
import ReliableDatagram.Packet.Basic
import ReliableDatagram.Packet.Checksum
import ReliableDatagram.Packet.Wire
import ReliableDatagram.Packet.Text
import ReliableDatagram.Congestion.Window
import ReliableDatagram.Congestion.RoundTrip
import ReliableDatagram.Config
import ReliableDatagram.Sending.Numbering
import ReliableDatagram.Sending.Unacked
import ReliableDatagram.Sending.Tracker
import ReliableDatagram.Sending.SlotTable
import ReliableDatagram.Receiving.OrderingBuffer
import ReliableDatagram.Receiving.BoundedQueue
import ReliableDatagram.Engine.Basic
import ReliableDatagram.Engine.Locked
import ReliableDatagram.Assoc
import ReliableDatagram.Attempt
import ReliableDatagram.Engine.LockFree
import ReliableDatagram.Engine.Choice
import ReliableDatagram.EndPoint.Connections
import ReliableDatagram.EndPoint.Basic
import ReliableDatagram.Network.Basic
import ReliableDatagram.Network.Command
import ReliableDatagram.Proofs.Assoc
import ReliableDatagram.Proofs.Congestion.Bounds
import ReliableDatagram.Proofs.Congestion.Events
import ReliableDatagram.Proofs.Congestion.Growth
import ReliableDatagram.Proofs.Congestion.Freezing
import ReliableDatagram.Proofs.Congestion.Arithmetic
import ReliableDatagram.Proofs.Congestion.Estimate
import ReliableDatagram.Proofs.Sending.Slots
import ReliableDatagram.Proofs.Sending.Mirror
import ReliableDatagram.Proofs.Sending.Offers
import ReliableDatagram.Proofs.Sending.Tracker
import ReliableDatagram.Proofs.Serial
import ReliableDatagram.Proofs.Sending.History
import ReliableDatagram.Proofs.Sending.Scanning
import ReliableDatagram.Proofs.Sending.HalfSpace
import ReliableDatagram.Proofs.Sending.Walking
import ReliableDatagram.Proofs.Sending.Ledger
import ReliableDatagram.Proofs.Sending.Custody
import ReliableDatagram.Proofs.Sending.Ownership
import ReliableDatagram.Proofs.Engine.Agreement
import ReliableDatagram.Proofs.Engine.Locked
import ReliableDatagram.Proofs.Engine.Equivalence
import ReliableDatagram.Proofs.Engine.Refusals
import ReliableDatagram.Proofs.Packet.Exactness
import ReliableDatagram.Proofs.Packet.Corruption
import ReliableDatagram.Proofs.Packet.OnesComplement
import ReliableDatagram.Proofs.Packet.RoundTrip
import ReliableDatagram.Proofs.Receiving.Ordering
import ReliableDatagram.Proofs.Receiving.Runs
import ReliableDatagram.Proofs.Receiving.ArrivalOrder
import ReliableDatagram.Proofs.Receiving.Forward
import ReliableDatagram.Proofs.Receiving.Repositioning
import ReliableDatagram.Proofs.Receiving.Queue
import ReliableDatagram.Proofs.Engine.Stream
import ReliableDatagram.Proofs.Engine.Construction
import ReliableDatagram.Proofs.Engine.Numbered
import ReliableDatagram.Proofs.Engine.Bounds
import ReliableDatagram.Proofs.Engine.AckOrder
import ReliableDatagram.Proofs.Engine.Redelivery
import ReliableDatagram.Proofs.Engine.Accounting
import ReliableDatagram.Proofs.Engine.Overdue
import ReliableDatagram.Proofs.Engine.Samples
import ReliableDatagram.Proofs.Exchange.Basic
import ReliableDatagram.Proofs.EndPoint.Peer
import ReliableDatagram.Proofs.EndPoint.Reaction
import ReliableDatagram.Proofs.EndPoint.Isolation
import ReliableDatagram.Proofs.EndPoint.Endings
import ReliableDatagram.Proofs.Exchange.Delivery
import ReliableDatagram.Proofs.Network.Pair
import ReliableDatagram.Proofs.Network.Stands
import ReliableDatagram.Proofs.Network.Simulation
import ReliableDatagram.Proofs.Network.ExactlyOnce
import ReliableDatagram.Proofs.Exchange.Scans
import ReliableDatagram.Proofs.Network.Clock
import ReliableDatagram.Proofs.Exchange.DataPhase
import ReliableDatagram.Proofs.Network.Recovery
import ReliableDatagram.Proofs.Network.Closing
import ReliableDatagram.Proofs.Engine.Gate
import ReliableDatagram.Proofs.Engine.Draining
import ReliableDatagram.Proofs.Network.Restarts
