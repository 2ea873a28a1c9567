/-
The timers that make end points scan.

A timer is set to an interval and ticks from then on, and each tick makes one
scan.  When exactly it ticks depends on the timer and on whatever else its host
has to do.  So a network takes its timer as a parameter, and all that is asked of
one is that its ticks lie within the time that goes by and that every stretch
of the length of the interval holds one; it may tick more often, and at
different times for different nodes.

A tick of an interval that is cut off by the end of the time that goes by need not
come, and what has ticked before is not remembered: a timer is asked anew for each
stretch of time.  That is enough for retransmission, where a packet only has to be
scanned some time after its timeout.

A punctual timer ticks at every multiple of the interval and never else.
-/
import ReliableDatagram.Duration

namespace ReliableDatagram

/-- The ticks of the nodes while time goes by. -/
structure Timer where
  /-- When the timer of a node with an interval ticks in the time from `start` to `finish`. -/
  ticks : (node interval : Nat) → (start finish : Instant) → List Instant
  within : ∀ {node interval : Nat} {start finish t : Instant},
    t ∈ ticks node interval start finish → start ≤ t ∧ t ≤ finish
  regular : ∀ (node : Nat) {interval : Nat} {start finish since : Instant}, 0 < interval →
    start ≤ since → since + interval ≤ finish →
      ∃ t ∈ ticks node interval start finish, since < t ∧ t ≤ since + interval

namespace Timer

/-- The multiples of `interval` after `start` and up to `finish`. -/
def multiples (interval start finish : Nat) : List Instant :=
  (List.range' (start / interval + 1) (finish / interval - start / interval)).map (· * interval)

theorem mem_multiples {interval start finish t : Nat} :
    t ∈ multiples interval start finish ↔
      ∃ q, start / interval < q ∧ q ≤ finish / interval ∧ q * interval = t := by
  simp only [multiples, List.mem_map, List.mem_range'_1]
  constructor
  · rintro ⟨q, ⟨hlo, hhi⟩, rfl⟩
    exact ⟨q, hlo, by omega, rfl⟩
  · rintro ⟨q, hlo, hhi, rfl⟩
    exact ⟨q, ⟨hlo, by omega⟩, rfl⟩

theorem le_of_mem_multiples {interval start finish t : Nat}
    (h : t ∈ multiples interval start finish) : start ≤ t ∧ t ≤ finish := by
  obtain ⟨q, hlo, hhi, rfl⟩ := mem_multiples.mp h
  rcases Nat.eq_zero_or_pos interval with rfl | hpos
  · rw [Nat.div_zero] at hlo hhi
    omega
  · refine ⟨Nat.le_of_lt ?_, (Nat.le_div_iff_mul_le hpos).mp hhi⟩
    exact (Nat.div_lt_iff_lt_mul hpos).mp hlo

/-- The first multiple after a point in time comes within one interval. -/
theorem exists_mem_multiples {interval start finish since : Nat} (hpos : 0 < interval)
    (hstart : start ≤ since) (hfinish : since + interval ≤ finish) :
    ∃ t ∈ multiples interval start finish, since < t ∧ t ≤ since + interval := by
  have hdiv := Nat.div_add_mod' since interval
  have hmod := Nat.mod_lt since hpos
  have hnext : (since / interval + 1) * interval = since / interval * interval + interval :=
    Nat.succ_mul _ _
  have hle : (since / interval + 1) * interval ≤ since + interval := by omega
  refine ⟨_, mem_multiples.mpr ⟨since / interval + 1, ?_, ?_, rfl⟩, by omega, hle⟩
  · exact Nat.lt_succ_of_le (Nat.div_le_div_right hstart)
  · exact (Nat.le_div_iff_mul_le hpos).mpr (Nat.le_trans hle hfinish)

def punctual : Timer where
  ticks _ := multiples
  within := le_of_mem_multiples
  regular _ := exists_mem_multiples

end Timer

end ReliableDatagram
