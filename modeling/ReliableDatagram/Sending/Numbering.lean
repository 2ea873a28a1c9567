/-
The supply of sequence numbers for outgoing DATA packets.

Numbers are given out one after the other and never taken back, and a supply knows
nothing but the number that is next.  A number can be taken on condition, and if
the condition fails the number stays next; this is how a payload that finds the
slot of the next number occupied uses up no number.

What a peer may acknowledge is bounded by the number given out last and by what was
recorded under numbers from elsewhere, whichever is later in serial order.
-/
import ReliableDatagram.SeqNum

namespace ReliableDatagram

/-- Numbers are handed out one after the other, beginning with the first. -/
structure Numbering where
  upcoming : SeqNum
deriving DecidableEq

namespace Numbering

def start : Numbering := ⟨.first⟩

/-- Takes the next number. -/
def allocate (n : Numbering) : SeqNum × Numbering := (n.upcoming, ⟨n.upcoming.next⟩)

/-- Takes the next number if `accept` holds for it, and none otherwise. -/
def allocateIf (n : Numbering) (accept : SeqNum → Bool) : Option SeqNum × Numbering :=
  if accept n.upcoming then (some n.upcoming, ⟨n.upcoming.next⟩) else (none, n)

/-- The number handed out last; before the first one, the number in front of it. -/
def lastAllocated (n : Numbering) : SeqNum := n.upcoming.prev

/-- The later of the number handed out last and the latest number seen on a
recorded packet.  No peer can honestly acknowledge anything beyond it. -/
def highestIssued (n : Numbering) : Option SeqNum → SeqNum
  | none => n.lastAllocated
  | some recorded => recorded.latest n.lastAllocated

theorem allocateIf_of_refused {n : Numbering} {accept : SeqNum → Bool}
    (h : accept n.upcoming = false) : n.allocateIf accept = (none, n) := by
  simp [allocateIf, h]

end Numbering

end ReliableDatagram
