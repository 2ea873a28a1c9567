/-
A buffer that is never set back.

Packets and targets to advance to come in any order.  Each of them moves the
position some steps forward, and then packets are released from there on.
What is held lies less than half the space ahead; so an operation moves the
position by half the space at most, also where it first passes over numbers
and then releases what follows behind them.  Hence a number released can be
told from one that was passed or released before, although all numbers come
back some time.

`Moves` says this of one operation: so many numbers passed over, then so many
packets with the numbers that follow.  A received packet passes over nothing.  An
advance passes over the numbers up to its target if the target is ahead, and does
nothing at all if it is not; setting the position back, as a new connection does, is
not among the operations here.

The bound of half the space is the window of the module on arrival orders, taken from
the position on, so what is known about releases in a window carries over.
-/
import ReliableDatagram.Proofs.Receiving.ArrivalOrder

namespace ReliableDatagram

namespace SeqNum

variable {s base : SeqNum}

theorem toNat_distance_of_isAfter (h : s.isAfter base = true) :
    (s.distance base).toNat = s.offset base := by
  have hlt := ((isAfter_iff s base).mp h).2
  rw [distance, if_pos hlt, Int.toNat_natCast]

theorem toNat_distance_of_not_isAfter (h : s.isAfter base = false) :
    (s.distance base).toNat = 0 := by
  rw [isAfter, decide_eq_false_iff_not] at h
  exact Int.toNat_of_nonpos (Int.not_lt.mp h)

end SeqNum

namespace OrderingBuffer

/-- A buffer has passed over some numbers and released those that follow. -/
structure Moves (b : OrderingBuffer) (passed : Nat) (out : List Packet) (b' : OrderingBuffer) :
    Prop where
  settled : b'.Settled
  numbers : out.map (·.seq) = (List.range' passed out.length).map b.position.plus
  position : b'.position = b.position.plus (passed + out.length)
  le : passed + out.length ≤ 0x80000000

section Moves

variable {b b' mid : OrderingBuffer} {out : List Packet} {passed : Nat}

theorem Settled.moves_nil (h : b.Settled) : b.Moves 0 [] b where
  settled := h
  numbers := rfl
  position := (SeqNum.plus_zero _).symm
  le := Nat.zero_le _

theorem Kept.within (h : b.Kept) : b.Within b.position 0 := by
  refine ⟨(SeqNum.plus_zero _).symm, Nat.zero_le _, ?_⟩
  intro s hs
  obtain ⟨entry, hm, rfl⟩ := List.mem_map.mp hs
  have hahead := h.ahead entry hm
  rw [Bool.eq_false_iff, Ne, SeqNum.isBefore_iff] at hahead
  exact Nat.lt_of_not_le hahead

theorem Releases.moves (h : mid.Releases out b') (hk : mid.Kept)
    (hw : mid.Within b.position passed) (hs : b'.Settled) : b.Moves passed out b' where
  settled := hs
  numbers := by
    rw [h.numbers, hw.position, List.range'_eq_map_range, List.map_map]
    exact List.map_congr_left fun j _ => SeqNum.plus_plus _ _ _
  position := (hw.releases hk h).position
  le := (hw.releases hk h).le

theorem Settled.moves_receive (h : b.Settled) (p : Packet) :
    b.Moves 0 (b.receive p).1.released (b.receive p).2 := by
  rcases h.receive_cases p with ⟨hr, -⟩ | ⟨hr, -⟩ | ⟨out, b', hr, hd, -, hrel, hset⟩
  · rw [hr]
    exact h.moves_nil
  · rw [hr]
    exact h.moves_nil
  · have hk := h.toKept.hold hd
    rw [hr]
    exact hrel.moves hk hk.within hset

/-- What is held from a target on, as seen from there. -/
theorem Kept.retarget (h : b.Kept) (target : SeqNum) :
    Kept { b with position := target, held := b.held.filter (! ·.1.isBefore target) } where
  key entry hm := h.key entry (List.mem_filter.mp hm).1
  distinct := (List.filter_sublist.map Prod.fst).nodup h.distinct
  ahead entry hm := by simpa using (List.mem_filter.mp hm).2

/-- A target ahead is where the release begins; any other target changes nothing. -/
theorem Settled.moves_advance (h : b.Settled) (target : SeqNum) :
    b.Moves (target.distance b.position).toNat (b.advance target).1 (b.advance target).2 := by
  cases ha : target.isAfter b.position with
  | false =>
      rw [advance_of_not_isAfter ha, SeqNum.toNat_distance_of_not_isAfter ha]
      exact h.moves_nil
  | true =>
      have hk := h.toKept.retarget target
      obtain ⟨hrel, hset⟩ := hk.release (b.held.filter (! ·.1.isBefore target)).length
      rw [advance, if_pos ha, SeqNum.toNat_distance_of_isAfter ha]
      -- seen from the old position, what is still held lies where it lay
      refine hrel.moves hk ⟨(SeqNum.plus_offset _ _).symm, ?_, ?_⟩ (hset (Nat.le_refl _))
      · exact Nat.le_of_lt ((SeqNum.isAfter_iff _ _).mp ha).2
      · intro s hs
        obtain ⟨entry, hm, rfl⟩ := List.mem_map.mp hs
        exact h.toKept.within.numbers _ (List.mem_map_of_mem (List.mem_filter.mp hm).1)

end Moves

end OrderingBuffer

end ReliableDatagram
