/-
The tracker of packets in flight.

A packet belongs to the slot of its number modulo the number of slots, and a
slot holds one packet at most.  Finding a packet by number therefore looks
into its slot and compares the number.  Scanning renews what is overdue and
leaves everything else alone.

The packets are kept in one list, the latest in front, and no two of them share a
slot.  So the list is a table without its vacant slots.  Beside it stands the latest
number that was ever recorded, in serial order; it is what the offers of a scan are
sorted by, and it does not go back when packets are acknowledged.
-/
import ReliableDatagram.Fault
import ReliableDatagram.PowerOfTwo
import ReliableDatagram.Sending.Unacked

namespace ReliableDatagram

/-- Sent DATA packets that wait for their acknowledgement. -/
structure Tracker where
  slots : Nat
  entries : List Unacked
  /-- The latest number ever recorded. -/
  highest : Option SeqNum
deriving DecidableEq

namespace Tracker

/-- An empty tracker.  Slots are numbered by words, so there are at most 2³². -/
def new (slots : Nat) : Except Fault Tracker :=
  if ¬ isPowerOfTwo slots then .error (.trackerSize slots)
  else if 0x100000000 < slots then .error .trackerRange
  else .ok ⟨slots, [], none⟩

def slotOf (t : Tracker) (s : SeqNum) : Nat := s.word.toNat % t.slots

/-- Whether a packet sits in the slot of a number. -/
def sharesSlot (t : Tracker) (s : SeqNum) (e : Unacked) : Bool :=
  t.slotOf e.packet.seq == t.slotOf s

/-- The packet in the slot of a number, whatever its own number. -/
def occupant? (t : Tracker) (s : SeqNum) : Option Unacked := t.entries.find? (t.sharesSlot s)

def isVacant (t : Tracker) (s : SeqNum) : Bool := (t.occupant? s).isNone

def find? (t : Tracker) (s : SeqNum) : Option Unacked :=
  (t.occupant? s).filter (·.packet.seq == s)

/-- Takes up a DATA packet whose slot is vacant; tells whether it did. -/
def record (t : Tracker) (packet : Packet) (now : Instant) : Bool × Tracker :=
  if packet.isKind .data && t.isVacant packet.seq then
    (true, { t with
      entries := .sent packet now :: t.entries
      highest := some (.highestWith t.highest packet.seq) })
  else (false, t)

/-- Gives out the packet in front of the acknowledged number. -/
def acknowledge (t : Tracker) (ack : SeqNum) : Option Unacked × Tracker :=
  match t.find? ack.prev with
  | none => (none, t)
  | some e => (some e, { t with entries := t.entries.eraseP (t.sharesSlot ack.prev) })

def isUnacked (t : Tracker) (s : SeqNum) : Bool := (t.find? s).isSome

def retries? (t : Tracker) (s : SeqNum) : Option UInt32 := (t.find? s).map (·.retries)

def size (t : Tracker) : Nat := t.entries.length

/-- Offers every packet sent more than `timeout` ago, oldest number first.
An offered packet counts as sent now. -/
def scan (t : Tracker) (now : Instant) (timeout : Duration) : List Offer × Tracker :=
  (Offer.inOrder t.highest (t.entries.filterMap (·.offer? now timeout)),
    { t with entries := t.entries.map (·.renewed now timeout) })

@[simp] theorem size_scan (t : Tracker) (now : Instant) (timeout : Duration) :
    (t.scan now timeout).2.size = t.size := by
  simp [scan, size]

end Tracker

end ReliableDatagram
