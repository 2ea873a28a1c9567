/-
The least power of two above a number.

It is at least the number, and no power of two in between is passed over.  So the
search of the core library, which doubles from one on until it gets there, ends at
the same place: its loop keeps a power of two that is not beyond the least one
above the number, and if it is still below the number it can be doubled without
getting beyond it.  That both are the same makes the library's theorem, that the
search ends at a power of two, one about the power that is read off the logarithm.
-/
import Mathlib.Data.Nat.Init
import ReliableDatagram.PowerOfTwo

open private Nat.nextPowerOfTwo.go from Init.Data.Nat.Power2.Basic

namespace ReliableDatagram

theorem le_powerOfTwoAbove (n : Nat) : n ≤ powerOfTwoAbove n := by
  unfold powerOfTwoAbove
  split
  · assumption
  · rw [Nat.one_shiftLeft]
    exact Nat.le_of_pred_lt (Nat.lt_log2_self (n := n - 1))

theorem powerOfTwoAbove_le {n m : Nat} (hm : isPowerOfTwo m = true) (h : n ≤ m) :
    powerOfTwoAbove n ≤ m := by
  unfold powerOfTwoAbove
  split
  · exact pos_of_isPowerOfTwo hm
  · next hn =>
      obtain ⟨k, rfl⟩ := (isPowerOfTwo_iff m).mp hm
      have hlog : (n - 1).log2 < k := (Nat.log2_lt (by omega)).mpr (by omega)
      rw [Nat.one_shiftLeft]
      exact Nat.pow_le_pow_right (by decide) hlog

theorem nextPowerOfTwo_go {n p : Nat} (hpos : 0 < p) (hp : p.isPowerOfTwo)
    (hle : p ≤ powerOfTwoAbove n) : Nat.nextPowerOfTwo.go n p hpos = powerOfTwoAbove n := by
  fun_induction Nat.nextPowerOfTwo.go n p hpos with
  | case1 p hpos hlt ih =>
      refine ih (Nat.isPowerOfTwo_mul_two_of_isPowerOfTwo hp) ?_
      obtain ⟨j, rfl⟩ := hp
      have hlog : j ≤ (n - 1).log2 := (Nat.le_log2 (by omega)).mpr (by omega)
      rw [powerOfTwoAbove, if_neg (by omega), Nat.one_shiftLeft, ← Nat.pow_succ]
      exact Nat.pow_le_pow_right (by decide) (Nat.succ_le_succ hlog)
  | case2 p hpos hnot =>
      have habove := powerOfTwoAbove_le ((isPowerOfTwo_iff p).mpr hp) (Nat.le_of_not_lt hnot)
      exact Nat.le_antisymm hle habove

/-- It is the power of two that the core library searches for. -/
theorem powerOfTwoAbove_eq (n : Nat) : powerOfTwoAbove n = n.nextPowerOfTwo := by
  have hone : 1 ≤ powerOfTwoAbove n := by
    unfold powerOfTwoAbove
    split
    · exact Nat.le_refl 1
    · rw [Nat.one_shiftLeft]
      exact Nat.two_pow_pos _
  exact (nextPowerOfTwo_go Nat.one_pos Nat.isPowerOfTwo_one hone).symm

theorem isPowerOfTwo_powerOfTwoAbove (n : Nat) : isPowerOfTwo (powerOfTwoAbove n) = true := by
  rw [powerOfTwoAbove_eq, isPowerOfTwo_iff]
  exact Nat.isPowerOfTwo_nextPowerOfTwo n

end ReliableDatagram
