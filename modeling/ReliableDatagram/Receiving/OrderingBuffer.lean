/-
The buffer that puts received packets into order.

A packet ahead of the position is held back until the gap in front of it is
filled; then everything that follows without a gap is released at once.
What lies before the position or is held already counts as a duplicate, so
the buffer remembers nothing besides the packets it holds.

The packet at the position needs no room, since it is released at once.  A full
buffer can still move on, and no gap can block it for ever as long as the packet
that fills it comes again.

"Before" is serial order, which looks at the shorter way round.  A number more than
half the space ahead of the position therefore counts as a duplicate, and whether a
number is ahead or behind can change as the position moves.  What holds in spite of
that, and what does not, is the subject of the modules on receiving.
-/
import ReliableDatagram.Packet.Basic

namespace ReliableDatagram

/-- What became of a received packet. -/
inductive Delivery where
  /-- Released or held before. -/
  | duplicate
  /-- Ahead of the position, and no room to hold it back. -/
  | overflow
  /-- Taken up; `released` are the packets whose turn has come. -/
  | accepted (released : List Packet)
deriving DecidableEq

/-- Received packets that wait for earlier ones. -/
structure OrderingBuffer where
  /-- The number whose turn is next. -/
  position : SeqNum
  /-- Packets held back, by number. -/
  held : List (SeqNum × Packet)
  /-- How many packets may be held back. -/
  capacity : Nat
deriving DecidableEq

namespace OrderingBuffer

def new (position : SeqNum) (capacity : Nat) : OrderingBuffer := ⟨position, [], capacity⟩

def size (b : OrderingBuffer) : Nat := b.held.length

def find? (b : OrderingBuffer) (s : SeqNum) : Option Packet := b.held.lookup s

/-- Whether a number was released or is held. -/
def isDuplicate (b : OrderingBuffer) (s : SeqNum) : Bool :=
  s.isBefore b.position || (b.find? s).isSome

/-- The buffer with the packet at the position gone and the position moved on. -/
def stepped (b : OrderingBuffer) : OrderingBuffer :=
  { b with position := b.position.next, held := b.held.filter (·.1 != b.position) }

/-- Releases up to `limit` packets, from the position on. -/
def release : (limit : Nat) → OrderingBuffer → List Packet × OrderingBuffer
  | 0, b => ([], b)
  | limit + 1, b =>
    match b.find? b.position with
    | none => ([], b)
    | some p => let (released, b') := release limit b.stepped; (p :: released, b')

def drain (b : OrderingBuffer) : List Packet × OrderingBuffer := release b.size b

def hold (b : OrderingBuffer) (p : Packet) : OrderingBuffer :=
  { b with held := (p.seq, p) :: b.held }

/-- Takes up a received packet.  The packet at the position needs no room,
since it is released at once; so a full buffer can still move on. -/
def receive (b : OrderingBuffer) (p : Packet) : Delivery × OrderingBuffer :=
  if b.isDuplicate p.seq then (.duplicate, b)
  else if p.seq ≠ b.position ∧ b.capacity ≤ b.size then (.overflow, b)
  else let (released, b') := (b.hold p).drain; (.accepted released, b')

/-- Moves the position to `target`, in either direction.  Packets held from
before the target are dropped; those whose turn has come are released. -/
def resync (b : OrderingBuffer) (target : SeqNum) : List Packet × OrderingBuffer :=
  { b with position := target, held := b.held.filter (! ·.1.isBefore target) }.drain

/-- Moves the position forward to `target`; a target that is not ahead of
the position changes nothing. -/
def advance (b : OrderingBuffer) (target : SeqNum) : List Packet × OrderingBuffer :=
  if target.isAfter b.position then b.resync target else ([], b)

theorem receive_of_isDuplicate {b : OrderingBuffer} {p : Packet}
    (h : b.isDuplicate p.seq = true) : b.receive p = (.duplicate, b) := by
  simp [receive, h]

theorem receive_of_overflow {b : OrderingBuffer} {p : Packet}
    (h : (b.receive p).1 = .overflow) : b.receive p = (.overflow, b) := by
  unfold receive at h ⊢
  split
  · rename_i hd
    rw [if_pos hd] at h
    cases h
  · rename_i hd
    rw [if_neg hd] at h
    split
    · rfl
    · rename_i hc
      rw [if_neg hc] at h
      cases h

/-- No position moves backwards by advancing. -/
theorem advance_of_not_isAfter {b : OrderingBuffer} {target : SeqNum}
    (h : target.isAfter b.position = false) : b.advance target = ([], b) := by
  simp [advance, h]

end OrderingBuffer

end ReliableDatagram
