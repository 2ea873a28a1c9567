/-
The checksum that guards a packet.

Header and payload are each read as big-endian 32-bit words, the last word
filled up with zeros; all words are added without loss, the carries beyond
16 bits are added back in until none is left, and the result is inverted
over 32 bits.  Inverting leaves the upper half all ones.

Adding and folding work on numbers without a bound.  The program has 64 bits for
them, which is enough for a packet; the theory of one's complement proves it, and
that the fold ends.
-/
import ReliableDatagram.Packet.BigEndian

namespace ReliableDatagram.Checksum

/-- The sum of the big-endian 32-bit words of some bytes, the last word
filled up with zeros on the right. -/
def wordSum : Bytes → Nat
  | [] => 0
  | [a] => bigEndian [a, 0, 0, 0]
  | [a, b] => bigEndian [a, b, 0, 0]
  | [a, b, c] => bigEndian [a, b, c, 0]
  | a :: b :: c :: d :: rest => bigEndian [a, b, c, d] + wordSum rest

/-- Adds the part of a sum beyond 16 bits to the part within, until the sum
fits. -/
def foldCarries (n : Nat) : Nat :=
  if n < 0x10000 then n else foldCarries (n % 0x10000 + n / 0x10000)
termination_by n
decreasing_by omega

def checksum (header payload : Bytes) : UInt32 :=
  ~~~ (UInt32.ofNat (foldCarries (wordSum header + wordSum payload)))

theorem foldCarries_lt (n : Nat) : foldCarries n < 0x10000 := by
  fun_induction foldCarries n with
  | case1 n h => exact h
  | case2 n _ ih => exact ih

end ReliableDatagram.Checksum
