/-
Numbers in bytes, the high byte first.

Each number of a header stands in a field of two or four bytes.  What a field spells
is read off by one function for every width; writing has one function for each of
the two widths.  The lemmas say that the two are inverse to each other on fields of
the right width, which is all that a reader and a writer need to know of bytes.
-/

namespace ReliableDatagram

abbrev Bytes := List UInt8

/-- The number that bytes spell. -/
def bigEndian (bytes : Bytes) : Nat := bytes.foldl (fun n b => n * 0x100 + b.toNat) 0

/-- The number in `width` bytes from `start` on. -/
def numberAt (bytes : Bytes) (start width : Nat) : Nat :=
  bigEndian ((bytes.drop start).take width)

def bytes16 (n : Nat) : Bytes := [UInt8.ofNat (n / 0x100), UInt8.ofNat n]

def bytes32 (n : Nat) : Bytes :=
  [UInt8.ofNat (n / 0x1000000), UInt8.ofNat (n / 0x10000), UInt8.ofNat (n / 0x100), UInt8.ofNat n]

theorem bigEndian_bytes16 {n : Nat} (h : n < 0x10000) : bigEndian (bytes16 n) = n := by
  simp only [bigEndian, bytes16, List.foldl, UInt8.toNat_ofNat']
  omega

theorem bigEndian_bytes32 {n : Nat} (h : n < 0x100000000) : bigEndian (bytes32 n) = n := by
  simp only [bigEndian, bytes32, List.foldl, UInt8.toNat_ofNat']
  omega

theorem bigEndian_lt : ∀ {bytes : Bytes}, bytes.length = 4 → bigEndian bytes < 0x100000000
  | [a, b, c, d], _ => by
    have ha := a.toNat_lt
    have hb := b.toNat_lt
    have hc := c.toNat_lt
    have hd := d.toNat_lt
    simp only [bigEndian, List.foldl]
    omega

theorem bytes16_bigEndian : ∀ {bytes : Bytes}, bytes.length = 2 → bytes16 (bigEndian bytes) = bytes
  | [a, b], _ => by
    have ha := a.toNat_lt
    have hb := b.toNat_lt
    simp only [bytes16, bigEndian, List.foldl, List.cons.injEq, and_true, ← UInt8.toNat_inj,
      UInt8.toNat_ofNat']
    omega

theorem bytes32_bigEndian : ∀ {bytes : Bytes}, bytes.length = 4 → bytes32 (bigEndian bytes) = bytes
  | [a, b, c, d], _ => by
    have ha := a.toNat_lt
    have hb := b.toNat_lt
    have hc := c.toNat_lt
    have hd := d.toNat_lt
    simp only [bytes32, bigEndian, List.foldl, List.cons.injEq, and_true, ← UInt8.toNat_inj,
      UInt8.toNat_ofNat']
    omega

/-- Fields of one width that spell the same number are the same. -/
theorem eq_of_bigEndian_eq {a b : Bytes} (hw : a.length = 2 ∨ a.length = 4)
    (hlen : b.length = a.length) (h : bigEndian a = bigEndian b) : a = b := by
  rcases hw with hw | hw
  · rw [← bytes16_bigEndian hw, h, bytes16_bigEndian (hlen.trans hw)]
  · rw [← bytes32_bigEndian hw, h, bytes32_bigEndian (hlen.trans hw)]

end ReliableDatagram
