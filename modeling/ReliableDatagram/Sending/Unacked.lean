/-
Packets waiting for their acknowledgement, and their offers for another
transmission.

A packet waits with the time when it was sent last and with the number of times
it was offered again.  That number is a 32-bit word, in the entry as in the
offer, and counting wraps it round: an entry that was offered 2³² times looks
like one that never was, and its next offer counts as a first one.  A scan
offers a packet once at most, so this takes 2³² scans.  Only a build without
overflow checks gets that far; one with them stops at that offer instead.
-/
import ReliableDatagram.Duration
import ReliableDatagram.Packet.Basic

namespace ReliableDatagram

/-- A packet that was sent and not yet acknowledged. -/
structure Unacked where
  packet : Packet
  /-- When it was sent last. -/
  sentAt : Instant
  /-- How often it was offered again, modulo 2³². -/
  retries : UInt32
deriving DecidableEq

/-- A packet to be sent once more. -/
structure Offer where
  packet : Packet
  /-- Which retransmission this is, counted from one and modulo 2³². -/
  retry : UInt32
deriving DecidableEq

namespace Unacked

def sent (packet : Packet) (now : Instant) : Unacked := ⟨packet, now, 0⟩

/-- Whether more than `timeout` has passed since the packet was sent. -/
def isOverdue (u : Unacked) (now : Instant) (timeout : Duration) : Bool :=
  timeout.nanos < (Duration.between u.sentAt now).nanos

def resent (u : Unacked) (now : Instant) : Unacked :=
  { u with sentAt := now, retries := u.retries + 1 }

/-- An overdue packet counts as sent again; any other stays as it is. -/
def renewed (u : Unacked) (now : Instant) (timeout : Duration) : Unacked :=
  if u.isOverdue now timeout then u.resent now else u

/-- The offer that a scan makes for an overdue packet. -/
def offer? (u : Unacked) (now : Instant) (timeout : Duration) : Option Offer :=
  if u.isOverdue now timeout then some ⟨u.packet, u.retries + 1⟩ else none

end Unacked

namespace Offer

/-- Offers from the oldest number to the newest, as seen from the number
after the highest recorded one. -/
def inOrder (highest : Option SeqNum) (offers : List Offer) : List Offer :=
  match highest with
  | none => offers
  | some h => offers.mergeSort fun a b =>
      decide (a.packet.seq.distance h.next ≤ b.packet.seq.distance h.next)

/-- How many packets are offered for the first time. -/
def firstTimers (offers : List Offer) : Nat := offers.countP (·.retry == 1)

end Offer

/-- The later of the highest number so far, if any, and one more. -/
def SeqNum.highestWith (highest : Option SeqNum) (s : SeqNum) : SeqNum :=
  match highest with
  | none => s
  | some h => h.latest s

end ReliableDatagram
