/-
What the engines of a connection have in common.

An engine numbers, tracks and retransmits the DATA packets of one
connection, and puts the received ones into order.  This module holds its
errors, its counters and its report; the two engines follow in modules of
their own.

Both engines are driven by the same few operations: `nextNumber` and `budget`,
`send` for a packet with a number and `sendData` for a payload without one,
`handleAck`, `receive`, `timedOut` and `onLoss`.  Each takes the time from its
caller, for no engine reads a clock.  An error leaves the connection as it is and
can be answered by trying again later.

What a window or an estimate becomes under the settings of a connection is said
here once for both.  The one fault that growing a window can meet is turned into
"no growth"; that it never occurs on a connection is a result of the theory.
-/
import ReliableDatagram.Config
import ReliableDatagram.Receiving.OrderingBuffer
import ReliableDatagram.Sending.Numbering
import ReliableDatagram.Sending.Unacked

namespace ReliableDatagram

/-- Why an engine refuses a packet.  None of these ends a connection. -/
inductive EngineError where
  | notAnAck
  /-- An acknowledgement of a packet that was never sent. -/
  | futureAck (ack highestIssued : SeqNum)
  | bufferOverflow (capacity : Nat)
  | windowFull (inFlight : Nat) (window : UInt32)
  | slotCollision (seq : SeqNum)
deriving DecidableEq

def EngineError.message : EngineError → String
  | notAnAck => "packet is not an acknowledgment"
  | futureAck ack highestIssued =>
    s!"ACK for future packet: ack={ack}, highest issued={highestIssued}"
  | bufferOverflow capacity => s!"receive buffer overflow: capacity {capacity}"
  | windowFull inFlight window =>
    s!"send window is full: {inFlight} packets in flight, window {window}"
  | slotCollision seq => s!"slot for sequence number {seq} is occupied"

/-- Packets released by a receive operation, or its refusal. -/
abbrev Released := Except EngineError (List Packet)

/-- Counters of one engine.  They are 64-bit words, which show the same numbers as
long as there are fewer than 2⁶⁴ events; no engine lives to see that many. -/
structure Tally where
  /-- DATA packets taken up for tracking. -/
  sent : Nat := 0
  /-- DATA packets taken into the ordering buffer. -/
  received : Nat := 0
  /-- Packets that timed out at least once. -/
  lost : Nat := 0
  /-- Offers for another transmission. -/
  retransmitted : Nat := 0
deriving DecidableEq

namespace Tally

def countSent (t : Tally) : Tally := { t with sent := t.sent + 1 }

def countReceived (t : Tally) : Tally := { t with received := t.received + 1 }

def countOffers (t : Tally) (offers : List Offer) : Tally :=
  { t with
    lost := t.lost + Offer.firstTimers offers
    retransmitted := t.retransmitted + offers.length }

end Tally

/-- The state of an engine as reports show it. -/
structure EngineStats where
  tally : Tally
  window : UInt32
  threshold : UInt32
  roundTrip : Duration
  timeout : Duration
  unacked : Nat
deriving DecidableEq

def EngineStats.text (s : EngineStats) : String :=
  " ".intercalate [
    "sent=" ++ toString s.tally.sent,
    "received=" ++ toString s.tally.received,
    "lost=" ++ toString s.tally.lost,
    "retransmitted=" ++ toString s.tally.retransmitted,
    "cwnd=" ++ toString s.window.toNat,
    "ssthresh=" ++ toString s.threshold.toNat,
    "rtt=" ++ s.roundTrip.text,
    "rto=" ++ s.timeout.text,
    "unacked=" ++ toString s.unacked]

namespace Reliability

def firstOrdering (c : Reliability) : OrderingBuffer :=
  .new c.initialReceive c.receiveCapacity

/-- A window after an acknowledgement under these settings.  A window of no
packets would have to be divided by; it stays as it is, and a connection
never has one. -/
def grown (c : Reliability) (w : CongestionWindow) : CongestionWindow :=
  match w.onAck c.windowSize c.avoidance with
  | .ok w' => w'
  | .error _ => w

def sampled (c : Reliability) (r : RoundTrip) (sample : Duration) : RoundTrip :=
  r.onSample sample c.minTimeout c.maxTimeout

end Reliability

/-- The refusal of an acknowledgement that matches nothing, or the news that
it changes nothing. -/
def unmatchedAck (ack highestIssued : SeqNum) : Except EngineError Bool :=
  if ack.prev.isAfter highestIssued then .error (.futureAck ack highestIssued) else .ok false

end ReliableDatagram
