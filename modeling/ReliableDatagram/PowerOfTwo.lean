/-
Powers of two, the sizes of every table and ring here.

Both definitions go by the binary logarithm instead of a search, so they can be
evaluated on sizes of any order.  A size that is a power of two divides every
greater one, in particular the number of all words: this is why the remainder of
a position by the size goes on counting where the position wraps around.
-/

namespace ReliableDatagram

/-- Whether `n` is a power of two; zero is none. -/
def isPowerOfTwo (n : Nat) : Bool := 1 <<< n.log2 == n

/-- The least power of two that is at least `n`. -/
def powerOfTwoAbove (n : Nat) : Nat := if n ≤ 1 then 1 else 1 <<< ((n - 1).log2 + 1)

theorem isPowerOfTwo_iff (n : Nat) : isPowerOfTwo n = true ↔ n.isPowerOfTwo := by
  rw [isPowerOfTwo, beq_iff_eq, Nat.one_shiftLeft]
  refine ⟨fun h => ⟨n.log2, h.symm⟩, fun ⟨k, hk⟩ => ?_⟩
  rw [hk, Nat.log2_two_pow]

theorem isPowerOfTwo_shiftLeft (k : Nat) : isPowerOfTwo (1 <<< k) = true :=
  (isPowerOfTwo_iff _).mpr ⟨k, Nat.one_shiftLeft k⟩

theorem pos_of_isPowerOfTwo {n : Nat} (h : isPowerOfTwo n = true) : 0 < n :=
  Nat.pos_of_isPowerOfTwo ((isPowerOfTwo_iff n).mp h)

/-- The lesser of two powers of two divides the greater. -/
theorem dvd_of_isPowerOfTwo {n m : Nat} (hn : isPowerOfTwo n = true) (hm : isPowerOfTwo m = true)
    (h : n ≤ m) : n ∣ m := by
  obtain ⟨j, rfl⟩ := (isPowerOfTwo_iff n).mp hn
  obtain ⟨k, rfl⟩ := (isPowerOfTwo_iff m).mp hm
  exact Nat.pow_dvd_pow 2 ((Nat.pow_le_pow_iff_right (by decide)).mp h)

end ReliableDatagram
