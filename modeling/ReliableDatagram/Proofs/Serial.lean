/-
Distances between sequence numbers.

Seen from one base, every number has its own distance, and numbers that
follow each other within less than half the space compare like the counts
that they stand for.

Everything here goes by two functions.  `offset` counts the steps forward from a
base to a number, and `plus` takes so many steps.  They are inverse to each other
below the size of the space, and both relations of serial order are rewritten as
bounds on an offset.  After that a statement about numbers is one about counts, and
`omega` decides it.

Two ways of counting are used by the theory.  A run of a buffer counts from the
number that it expects first and may count beyond the size of the space, so there
the remainder stays visible.  A stream of DATA counts its packets from one on and is
shorter than half the space, so there counts and numbers are the same thing; the
last section has the lemmas for that case.
-/
import ReliableDatagram.SeqNum

namespace ReliableDatagram.SeqNum

theorem offset_inj {s t base : SeqNum} (h : s.offset base = t.offset base) : s = t := by
  have hw : s.word - base.word = t.word - base.word := UInt32.toNat_inj.mp h
  have : s.word = t.word := by
    rw [← UInt32.sub_add_cancel s.word base.word, hw, UInt32.sub_add_cancel]
  cases s
  cases t
  exact congrArg SeqNum.mk this

theorem distance_inj {s t base : SeqNum} (h : s.distance base = t.distance base) : s = t := by
  have hs := offset_lt s base
  have ht := offset_lt t base
  refine @offset_inj s t base ?_
  unfold distance at h
  split at h
  all_goals
    split at h
    all_goals omega

/-! ## Steps forward -/

/-- The number `k` steps on. -/
def plus (s : SeqNum) (k : Nat) : SeqNum := ⟨s.word + UInt32.ofNat k⟩

@[simp] theorem plus_zero (s : SeqNum) : s.plus 0 = s := by
  simp [plus]

theorem plus_plus (s : SeqNum) (j k : Nat) : (s.plus j).plus k = s.plus (j + k) := by
  rw [plus, plus, plus, UInt32.ofNat_add, UInt32.add_assoc]

theorem next_eq_plus (s : SeqNum) : s.next = s.plus 1 := rfl

@[simp] theorem next_plus (s : SeqNum) (k : Nat) : (s.plus k).next = s.plus (k + 1) := by
  rw [next_eq_plus, plus_plus]

@[simp] theorem prev_plus_succ (s : SeqNum) (k : Nat) : (s.plus (k + 1)).prev = s.plus k := by
  rw [← next_plus, next_prev]

theorem toNat_zero_plus (k : Nat) : (zero.plus k).word.toNat = k % 0x100000000 := by
  rw [plus, zero, UInt32.zero_add, UInt32.toNat_ofNat']

theorem plus_offset (s base : SeqNum) : base.plus (s.offset base) = s := by
  rw [plus, offset, UInt32.ofNat_toNat, UInt32.add_comm, UInt32.sub_add_cancel]

theorem offset_plus (base : SeqNum) (k : Nat) : (base.plus k).offset base = k % 0x100000000 := by
  rw [offset, plus, UInt32.add_comm, UInt32.add_sub_cancel, UInt32.toNat_ofNat']

/-- Seen from a later base a number is that much nearer, the long way round if need be. -/
theorem offset_of_plus (s base : SeqNum) {k : Nat} (hk : k ≤ 0x100000000) :
    s.offset (base.plus k) = (s.offset base + (0x100000000 - k)) % 0x100000000 := by
  have hs := s.word.toNat_lt
  have hb := base.word.toNat_lt
  rw [offset, offset, plus, UInt32.toNat_sub, UInt32.toNat_sub, UInt32.toNat_add,
    UInt32.toNat_ofNat']
  omega

theorem offset_next {s base : SeqNum} (h : s ≠ base) :
    s.offset base = s.offset base.next + 1 := by
  have hne : s.offset base ≠ 0 := by
    intro hzero
    exact h (offset_inj (by rw [hzero, offset_self]))
  have hlt := offset_lt s base
  rw [next_eq_plus, offset_of_plus s base (by decide)]
  omega

theorem isBefore_iff_plus (s base : SeqNum) :
    s.isBefore base = true ↔ ∃ j, 1 ≤ j ∧ j ≤ 0x80000000 ∧ s.plus j = base := by
  have hlt := offset_lt s base
  have hback : base.offset s = (0x100000000 - s.offset base) % 0x100000000 := by
    have hs := s.word.toNat_lt
    have hb := base.word.toNat_lt
    rw [offset, offset, UInt32.toNat_sub, UInt32.toNat_sub]
    omega
  rw [isBefore_iff]
  constructor
  · intro h
    refine ⟨base.offset s, ?_, ?_, plus_offset base s⟩
    all_goals
      rw [hback]
      omega
  · rintro ⟨j, hmin, hmax, rfl⟩
    rw [offset_of_plus s s (by omega), offset_self]
    omega

theorem isAfter_iff_plus (s base : SeqNum) :
    s.isAfter base = true ↔ ∃ j, 0 < j ∧ j < 0x80000000 ∧ s = base.plus j := by
  rw [isAfter_iff]
  constructor
  · intro h
    exact ⟨s.offset base, h.1, h.2, (plus_offset s base).symm⟩
  · rintro ⟨j, hmin, hmax, rfl⟩
    rw [offset_plus]
    omega

/-- A number that is passed is not after the one reached, until half the space lies between. -/
theorem not_isAfter_plus {base : SeqNum} {j k : Nat} (hj : j ≤ k) (hk : k < j + 0x80000000) :
    (base.plus j).isAfter (base.plus k) = false := by
  have hsplit : base.plus k = (base.plus j).plus (k - j) := by
    rw [plus_plus, Nat.add_sub_cancel' hj]
  rw [Bool.eq_false_iff, Ne, isAfter_iff, hsplit, offset_of_plus _ _ (by omega), offset_self]
  omega

theorem isBefore_plus_iff {s base : SeqNum} {k : Nat} (hs : s.offset base < 0x80000000)
    (hk : k ≤ 0x80000000) : s.isBefore (base.plus k) = true ↔ s.offset base < k := by
  rw [isBefore_iff, offset_of_plus s base (by omega)]
  omega

theorem plus_inj {s t : SeqNum} {k : Nat} : s.plus k = t.plus k ↔ s = t := by
  refine ⟨fun h => ?_, fun h => by rw [h]⟩
  have hw : s.word = t.word := (UInt32.add_left_inj (UInt32.ofNat k)).mp (SeqNum.mk.inj h)
  cases s
  cases t
  exact congrArg SeqNum.mk hw

/-- Of two numbers less than half the space behind a third one, the nearer is after the other. -/
theorem isAfter_of_offset_lt {s t last : SeqNum} (hs : last.offset s < 0x80000000)
    (h : last.offset t < last.offset s) : t.isAfter s = true := by
  rw [isAfter_iff_plus]
  refine ⟨last.offset s - last.offset t, by omega, by omega, ?_⟩
  refine (@plus_inj t _ (last.offset t)).mp ?_
  rw [plus_offset, plus_plus, Nat.sub_add_cancel (Nat.le_of_lt h), plus_offset]

/-- Seen from the number after the last one, what is further behind is further off. -/
theorem distance_next {s last : SeqNum} (h : last.offset s < 0x80000000) :
    s.distance last.next = -(last.offset s + 1 : Int) := by
  have hnext : last.next = s.plus (last.offset s + 1) := by rw [← next_plus, plus_offset]
  have hback : s.offset last.next = 0x100000000 - (last.offset s + 1) := by
    rw [hnext, offset_of_plus s s (by omega), offset_self]
    omega
  rw [distance, hback]
  split
  · omega
  · omega

/-! ## Counted numbers -/

/-- The number of a DATA packet with `k` packets before it. -/
def nth (k : Nat) : SeqNum := ⟨UInt32.ofNat (k + 1)⟩

@[simp] theorem next_nth (k : Nat) : (nth k).next = nth (k + 1) := by
  rw [next, nth, nth, UInt32.ofNat_add (k + 1) 1]
  rfl

theorem offset_nth (j k : Nat) : (nth j).offset (nth k) = (0x100000000 - (k + 1) % 0x100000000 +
    (j + 1)) % 0x100000000 := by
  simp only [offset, nth, UInt32.toNat_sub, UInt32.toNat_ofNat']
  omega

theorem nth_inj {j k : Nat} (hj : j < 0x80000000) (hk : k < 0x80000000) :
    nth j = nth k ↔ j = k := by
  refine ⟨fun h => ?_, fun h => by rw [h]⟩
  have := offset_nth j k
  rw [h, offset_self] at this
  omega

theorem isBefore_nth {j k : Nat} (hj : j < 0x80000000) (hk : k < 0x80000000) :
    (nth j).isBefore (nth k) = true ↔ j < k := by
  rw [isBefore_iff, offset_nth]
  omega

theorem not_isAfter_nth {k : Nat} (hk : k < 0x80000000) : first.isAfter (nth k) = false := by
  rw [Bool.eq_false_iff, Ne, isAfter_iff, show first = nth 0 from rfl, offset_nth]
  omega

end ReliableDatagram.SeqNum
