/-
The checksum as 16-bit ones' complement arithmetic has it.

A word of 32 bits is the sum of its halves and 65535 times the upper one, so
summing up words or their halves is the same modulo 65535, and folding keeps
the sum modulo 65535, too.  What the residue does not tell is zero from 65535;
but neither sum nor folding makes zero of anything else.  This says which
packets have one checksum.

`Represents` holds both parts: a number of sixteen bits stands for a sum if it has
the same residue and is zero for the sum zero only.  A sum has exactly one
representative, and the checksum is its complement.  Header and payload are padded
to whole words each by itself, which matters for a payload only, as the header has
twelve bytes.

The sum itself is taken in a word of 64 bits.  A header and a payload of the
greatest size stay below 2⁴¹, which three rounds of folding bring into 16 bits.
The word arithmetic is defined with checks, and the proof goes from words to numbers
one operation at a time; the induction over the bytes of a packet, a word at a time,
carries the bound on the sum so far.

Main statement: what a checksum is, and when two are equal.
-/
import Mathlib
import ReliableDatagram.Proofs.Packet.Corruption

namespace ReliableDatagram.Checksum

/-! ## The sum of 16-bit words -/

/-- Bytes filled up with zeros on the right to whole 32-bit words. -/
def padded (bytes : Bytes) : Bytes :=
  bytes ++ List.replicate ((4 - bytes.length % 4) % 4) 0

/-- The big-endian 16-bit words of an even number of bytes. -/
def halfWords : Bytes → List Nat
  | a :: b :: rest => bigEndian [a, b] :: halfWords rest
  | _ => []

/-- The sum of the 16-bit words of a header of whole words and a payload. -/
def halfSum (header payload : Bytes) : Nat :=
  (halfWords header).sum + (halfWords (padded payload)).sum

theorem padded_of_dvd {bytes : Bytes} (h : bytes.length % 4 = 0) : padded bytes = bytes := by
  rw [padded, h]
  exact List.append_nil bytes

theorem padded_cons_word (a b c d : UInt8) (rest : Bytes) :
    padded (a :: b :: c :: d :: rest) = a :: b :: c :: d :: padded rest := by
  have hlen : (a :: b :: c :: d :: rest).length % 4 = rest.length % 4 := by
    simp only [List.length_cons]
    omega
  simp only [padded, hlen, List.cons_append]

/-- A word is the sum of its halves, and the upper half counts for 65535 more. -/
theorem bigEndian_eq_halves (a b c d : UInt8) :
    ∃ k ≤ (halfWords [a, b, c, d]).sum,
      bigEndian [a, b, c, d] = (halfWords [a, b, c, d]).sum + 0xffff * k := by
  refine ⟨bigEndian [a, b], Nat.le_add_right _ _, ?_⟩
  simp only [halfWords, bigEndian, List.foldl, List.sum_cons, List.sum_nil]
  omega

theorem wordSum_eq_halves (bytes : Bytes) :
    ∃ k ≤ (halfWords (padded bytes)).sum,
      wordSum bytes = (halfWords (padded bytes)).sum + 0xffff * k := by
  fun_induction wordSum bytes with
  | case1 => exact ⟨0, Nat.le_refl 0, rfl⟩
  | case2 a => exact bigEndian_eq_halves a 0 0 0
  | case3 a b => exact bigEndian_eq_halves a b 0 0
  | case4 a b c => exact bigEndian_eq_halves a b c 0
  | case5 a b c d rest ih =>
      obtain ⟨j, hj, hword⟩ := bigEndian_eq_halves a b c d
      obtain ⟨k, hk, hrest⟩ := ih
      rw [padded_cons_word, hword, hrest]
      simp only [halfWords, List.sum_cons, List.sum_nil] at hj ⊢
      exact ⟨j + k, by omega, by omega⟩

/-! ## What stands for a sum in 16 bits -/

/-- The number that ones' complement arithmetic of 16 bits has for `n`: zero for zero alone, and
for every other the one between 1 and 65535 that is congruent to it. -/
structure Represents (f n : Nat) : Prop where
  le : f ≤ 0xffff
  zero_iff : f = 0 ↔ n = 0
  mod_eq : f % 0xffff = n % 0xffff

section Represents

variable {f g m n : Nat}

theorem foldCarries_eq_zero_iff (n : Nat) : foldCarries n = 0 ↔ n = 0 := by
  fun_induction foldCarries n with
  | case1 n h => rfl
  | case2 n h ih => rw [ih]; omega

theorem represents_foldCarries (n : Nat) : Represents (foldCarries n) n :=
  ⟨Nat.le_of_lt_succ (foldCarries_lt n), foldCarries_eq_zero_iff n, foldCarries_mod n⟩

/-- Sums apart by a multiple of 65535 are represented alike, unless one of them is zero. -/
theorem Represents.of_add_mul {k : Nat} (h : Represents f (n + 0xffff * k)) (hk : k ≤ n) :
    Represents f n :=
  ⟨h.le, h.zero_iff.trans (by omega), h.mod_eq.trans (Nat.add_mul_mod_self_left n 0xffff k)⟩

theorem Represents.eq_iff (hf : Represents f m) (hg : Represents g n) :
    f = g ↔ (m = 0 ∧ n = 0) ∨ (0 < m ∧ 0 < n ∧ m % 0xffff = n % 0xffff) := by
  have hf0 := hf.zero_iff
  have hg0 := hg.zero_iff
  have hfle := hf.le
  have hgle := hg.le
  rw [← hf.mod_eq, ← hg.mod_eq]
  omega

end Represents

/-- The checksum inverts what stands for the sum of the 16-bit words. -/
theorem represents_halfSum {header : Bytes} (h : header.length % 4 = 0) (payload : Bytes) :
    Represents (foldCarries (wordSum header + wordSum payload)) (halfSum header payload) := by
  obtain ⟨j, hj, hheader⟩ := wordSum_eq_halves header
  obtain ⟨k, hk, hpayload⟩ := wordSum_eq_halves payload
  rw [padded_of_dvd h] at hj hheader
  have hsum : wordSum header + wordSum payload = halfSum header payload + 0xffff * (j + k) := by
    rw [hheader, hpayload, halfSum]
    omega
  have hfold := represents_foldCarries (wordSum header + wordSum payload)
  rw [hsum] at hfold ⊢
  exact hfold.of_add_mul (Nat.add_le_add hj hk)

theorem toNat_checksum (header payload : Bytes) :
    (checksum header payload).toNat =
      0xffffffff - foldCarries (wordSum header + wordSum payload) := by
  have hlt := foldCarries_lt (wordSum header + wordSum payload)
  rw [checksum, UInt32.toNat_not, UInt32.toNat_ofNat_of_lt' (Nat.lt_trans hlt (by decide))]
  rfl

/-! ## The same in 64-bit words -/

/-- The sum of two words, if it is a word. -/
def add? (a b : UInt64) : Option UInt64 :=
  if a.toNat + b.toNat < 0x10000000000000000 then some (a + b) else none

/-- The big-endian 32-bit words of some bytes, widened to 64 bits. -/
def words : Bytes → List UInt64
  | a :: b :: c :: d :: rest => UInt64.ofNat (bigEndian [a, b, c, d]) :: words rest
  | _ => []

/-- The sum of the 32-bit words of some bytes, if no carry is lost on the way. -/
def sumWords? (bytes : Bytes) : Option UInt64 := (words (padded bytes)).foldlM add? 0

/-- Adds carries back in for as long as there are any, but not in more rounds than these. -/
def foldWord? : (rounds : Nat) → UInt64 → Option UInt64
  | 0, n => if n >>> 16 = 0 then some n else none
  | rounds + 1, n =>
    if n >>> 16 = 0 then some n else add? (n &&& 0xffff) (n >>> 16) >>= foldWord? rounds

/-- The checksum as 64-bit arithmetic finds it, if it finds it. -/
def checksum? (rounds : Nat) (header payload : Bytes) : Option UInt32 := do
  let sum ← add? (← sumWords? header) (← sumWords? payload)
  let folded ← foldWord? rounds sum
  return ~~~ folded.toUInt32

theorem add?_ofNat {m n : Nat} (h : m + n < 0x10000000000000000) :
    add? (UInt64.ofNat m) (UInt64.ofNat n) = some (UInt64.ofNat (m + n)) := by
  have hm : m < UInt64.size := Nat.lt_of_le_of_lt (Nat.le_add_right m n) h
  have hn : n < UInt64.size := Nat.lt_of_le_of_lt (Nat.le_add_left n m) h
  rw [add?, UInt64.toNat_ofNat_of_lt' hm, UInt64.toNat_ofNat_of_lt' hn, if_pos h,
    UInt64.ofNat_add]

theorem foldlM_word {a b c d : UInt8} {m : Nat}
    (h : m + bigEndian [a, b, c, d] < 0x10000000000000000) :
    (words [a, b, c, d]).foldlM add? (UInt64.ofNat m) =
      some (UInt64.ofNat (m + bigEndian [a, b, c, d])) := by
  rw [words, List.foldlM_cons, add?_ofNat h]
  rfl

theorem foldlM_words {bytes : Bytes} {m : Nat} (h : m + wordSum bytes < 0x10000000000000000) :
    (words (padded bytes)).foldlM add? (UInt64.ofNat m) =
      some (UInt64.ofNat (m + wordSum bytes)) := by
  fun_induction wordSum bytes generalizing m with
  | case1 => rfl
  | case2 a => exact foldlM_word h
  | case3 a b => exact foldlM_word h
  | case4 a b c => exact foldlM_word h
  | case5 a b c d rest ih =>
      rw [padded_cons_word, words, List.foldlM_cons, add?_ofNat (by omega)]
      exact (ih (by omega)).trans (by rw [Nat.add_assoc])

theorem bigEndian_le (a b c d : UInt8) : bigEndian [a, b, c, d] ≤ 0xffffffff :=
  Nat.le_of_lt_succ (bigEndian_lt rfl)

theorem wordSum_le (bytes : Bytes) : wordSum bytes ≤ (bytes.length + 3) / 4 * 0xffffffff := by
  fun_induction wordSum bytes with
  | case1 => exact Nat.zero_le _
  | case2 a => simpa using bigEndian_le a 0 0 0
  | case3 a b => simpa using bigEndian_le a b 0 0
  | case4 a b c => simpa using bigEndian_le a b c 0
  | case5 a b c d rest ih =>
      have hword := bigEndian_le a b c d
      simp only [List.length_cons]
      omega

section Rounds

variable {rounds n : Nat}

theorem shiftRight_ofNat (h : n < 0x10000000000000000) :
    UInt64.ofNat n >>> 16 = UInt64.ofNat (n / 0x10000) := by
  apply UInt64.toNat_inj.mp
  rw [UInt64.toNat_shiftRight, UInt64.toNat_ofNat_of_lt' h,
    UInt64.toNat_ofNat_of_lt' (Nat.lt_of_le_of_lt (Nat.div_le_self n _) h)]
  exact Nat.shiftRight_eq_div_pow n 16

theorem and_ofNat (h : n < 0x10000000000000000) :
    UInt64.ofNat n &&& 0xffff = UInt64.ofNat (n % 0x10000) := by
  apply UInt64.toNat_inj.mp
  rw [UInt64.toNat_and, UInt64.toNat_ofNat_of_lt' h,
    UInt64.toNat_ofNat_of_lt' (Nat.lt_of_le_of_lt (Nat.mod_le n _) h)]
  exact Nat.and_two_pow_sub_one_eq_mod n 16

theorem shiftRight_eq_zero_iff (h : n < 0x10000000000000000) :
    UInt64.ofNat n >>> 16 = 0 ↔ n < 0x10000 := by
  rw [shiftRight_ofNat h, ← UInt64.toNat_inj,
    UInt64.toNat_ofNat_of_lt' (Nat.lt_of_le_of_lt (Nat.div_le_self n _) h)]
  exact Nat.div_eq_zero_iff_lt (by decide)

theorem foldWord?_of_lt (h : n < 0x10000) :
    foldWord? rounds (UInt64.ofNat n) = some (UInt64.ofNat (foldCarries n)) := by
  have hdone := (shiftRight_eq_zero_iff (n := n) (by omega)).mpr h
  rw [foldCarries, if_pos h]
  cases rounds with
  | zero => rw [foldWord?, if_pos hdone]
  | succ rounds => rw [foldWord?, if_pos hdone]

theorem foldWord?_succ (h : n < 0x10000000000000000)
    (hrest : foldWord? rounds (UInt64.ofNat (n % 0x10000 + n / 0x10000)) =
      some (UInt64.ofNat (foldCarries (n % 0x10000 + n / 0x10000)))) :
    foldWord? (rounds + 1) (UInt64.ofNat n) = some (UInt64.ofNat (foldCarries n)) := by
  by_cases hlt : n < 0x10000
  · exact foldWord?_of_lt hlt
  · have hcarry := mt (shiftRight_eq_zero_iff h).mp hlt
    rw [foldWord?, if_neg hcarry, and_ofNat h, shiftRight_ofNat h, add?_ofNat (by omega),
      foldCarries, if_neg hlt]
    exact hrest

/-- A sum below 2⁴¹ is folded in three rounds. -/
theorem foldWord?_eq (h : n < 0x20000000000) :
    foldWord? 3 (UInt64.ofNat n) = some (UInt64.ofNat (foldCarries n)) := by
  refine foldWord?_succ (by omega) ?_
  refine foldWord?_succ (by omega) ?_
  exact foldWord?_succ (by omega) (foldWord?_of_lt (by omega))

end Rounds

theorem checksum?_eq {header payload : Bytes} (hh : header.length = 12)
    (hp : payload.length ≤ 1400) : checksum? 3 header payload = some (checksum header payload) := by
  have hheader := wordSum_le header
  have hpayload := wordSum_le payload
  have hsum {bytes : Bytes} (h : wordSum bytes < 0x20000000000) :
      sumWords? bytes = some (UInt64.ofNat (wordSum bytes)) := by
    have hword := @foldlM_words bytes 0 (by omega)
    rwa [Nat.zero_add] at hword
  rw [checksum?, hsum (by omega), hsum (by omega)]
  simp only [Option.bind_eq_bind, Option.bind_some]
  rw [add?_ofNat (by omega), Option.bind_some, foldWord?_eq (by omega), Option.bind_some,
    UInt64.toUInt32_ofNat']
  rfl

/-! ## Main result -/

/-- The checksum of a header and a payload as 16-bit ones' complement arithmetic has it. -/
structure OnesComplement (header payload : Bytes) : Prop where
  /-- No sum on the way leaves 64 bits, and three rounds of folding are enough. -/
  computed : checksum? 3 header payload = some (checksum header payload)
  upper : checksum header payload >>> 16 = 0xffff
  /-- The lower half inverts what stands for the sum of all 16-bit words. -/
  lower : ∃ f, Represents f (halfSum header payload) ∧
    (checksum header payload &&& 0xffff).toNat = 0xffff - f

/-- The checksum of a packet is that of 16-bit arithmetic, so two packets have one checksum exactly
if their sums stand for the same number. -/
theorem checksum_onesComplement {header payload : Bytes} (hh : header.length = 12)
    (hp : payload.length ≤ 1400) :
    OnesComplement header payload ∧ ∀ header' payload' : Bytes, header'.length = 12 →
      payload'.length ≤ 1400 → (checksum header payload = checksum header' payload' ↔
        (halfSum header payload = 0 ∧ halfSum header' payload' = 0) ∨
          (0 < halfSum header payload ∧ 0 < halfSum header' payload' ∧
            halfSum header payload % 0xffff = halfSum header' payload' % 0xffff)) := by
  have hrep := represents_halfSum (by rw [hh]) payload
  have hnat := toNat_checksum header payload
  have hle := hrep.le
  refine ⟨⟨checksum?_eq hh hp, ?_, _, hrep, ?_⟩, ?_⟩
  · apply UInt32.toNat_inj.mp
    rw [UInt32.toNat_shiftRight, hnat]
    refine (Nat.shiftRight_eq_div_pow _ 16).trans ?_
    show _ = 0xffff
    omega
  · rw [UInt32.toNat_and, hnat]
    refine (Nat.and_two_pow_sub_one_eq_mod _ 16).trans ?_
    omega
  · intro header' payload' hh' _
    have hrep' := represents_halfSum (by rw [hh']) payload'
    have hnat' := toNat_checksum header' payload'
    have hle' := hrep'.le
    rw [← hrep.eq_iff hrep', ← UInt32.toNat_inj, hnat, hnat']
    omega

/-- A payload of seven bytes whose words add up to 65535, beside one of the same sum and one of
sum zero. -/
theorem checksum_onesComplement_sevenBytes :
    let header : Bytes := List.replicate 12 0
    let payload : Bytes := [0xff, 0xfe, 0, 0, 0, 1, 0]
    (header.length = 12 ∧ payload.length ≤ 1400) ∧ OnesComplement header payload ∧
      checksum header payload = 0xffff0000 ∧
      checksum header payload = checksum header [0xff, 0xff] ∧
      checksum header payload ≠ checksum header [] := by
  intro header payload
  obtain ⟨hsum, hequal⟩ := @checksum_onesComplement header payload (by decide) (by decide)
  refine ⟨by decide, hsum, ?_, ?_, ?_⟩
  · exact Option.some.inj (hsum.computed.symm.trans (by decide))
  · exact (hequal header [0xff, 0xff] (by decide) (by decide)).mpr (by decide)
  · exact mt (hequal header [] (by decide) (by decide)).mp (by decide)

end ReliableDatagram.Checksum
