/-
Sequence numbers: 32-bit words that wrap around, in serial order.

Going forward from any number passes every other one, so "before" and
"after" only make sense for numbers less than half the space apart.  The
order is read off the signed distance, which has one law worth stating
here: it is the forward offset, folded into the half-open interval from
-2³¹ to 2³¹.

At exactly half the space apart each of two numbers is before the other and neither
is after.  So "before" is not the converse of "after", and neither relation is
transitive: three numbers a third of the space apart go round in a circle.  All
results that need an order therefore fix a base and stay within half the space from
it, and they go by the forward offset from the base.
-/

namespace ReliableDatagram

structure SeqNum where
  word : UInt32
deriving DecidableEq

namespace SeqNum

/-- The number that packets without a position of their own carry. -/
def zero : SeqNum := ⟨0⟩

/-- The number of the first DATA packet of a connection. -/
def first : SeqNum := ⟨1⟩

/-- The following number; zero follows the greatest word. -/
def next (s : SeqNum) : SeqNum := ⟨s.word + 1⟩

def prev (s : SeqNum) : SeqNum := ⟨s.word - 1⟩

/-- The number of steps forward that lead from `base` to `s`. -/
def offset (s base : SeqNum) : Nat := (s.word - base.word).toNat

/-- The signed number of steps from `base` to `s`, the shorter way round;
at exactly half the space apart it is negative in both directions. -/
def distance (s base : SeqNum) : Int :=
  if s.offset base < 0x80000000 then s.offset base else s.offset base - 0x100000000

/-- Serial order: fewer than half the space of steps lead from `base` to `s`. -/
def isAfter (s base : SeqNum) : Bool := 0 < s.distance base

/-- The reverse side of serial order; at half the space apart each number is
before the other. -/
def isBefore (s base : SeqNum) : Bool := s.distance base < 0

/-- The later of two numbers in serial order, the first one on a tie. -/
def latest (s t : SeqNum) : SeqNum := if t.isAfter s then t else s

instance : ToString SeqNum := ⟨fun s => toString s.word.toNat⟩

@[simp] theorem next_prev (s : SeqNum) : s.next.prev = s := by
  simp [next, prev]

@[simp] theorem prev_next (s : SeqNum) : s.prev.next = s := by
  simp [next, prev]

theorem offset_lt (s base : SeqNum) : s.offset base < 0x100000000 :=
  (s.word - base.word).toNat_lt

@[simp] theorem offset_self (s : SeqNum) : s.offset s = 0 := by
  simp [offset]

/-- After means one to half the space, less one, steps ahead. -/
theorem isAfter_iff (s base : SeqNum) :
    s.isAfter base = true ↔ 0 < s.offset base ∧ s.offset base < 0x80000000 := by
  have := offset_lt s base
  rw [isAfter, distance, decide_eq_true_iff]
  split <;> omega

/-- Before means at least half the space of steps ahead. -/
theorem isBefore_iff (s base : SeqNum) :
    s.isBefore base = true ↔ 0x80000000 ≤ s.offset base := by
  have := offset_lt s base
  rw [isBefore, distance, decide_eq_true_iff]
  split <;> omega

end SeqNum

end ReliableDatagram
