/-
Damage that a reader notices.

Adding carries back in keeps a sum modulo 65535, and one byte counts for a
power of 256 in it, which is 1 or 256 modulo 65535.  Two different bytes are
never that far apart, so a packet with one byte exchanged fails the checksum.
A packet that was cut short does not have the size that it states.

The argument about the checksum does not care where the byte stands.  A byte of the
header or of the payload moves the sum that is asked for and leaves the one that is
carried; a byte of the checksum itself moves the one that is carried.  So there are
three lemmas, by the place of the byte, and one that puts them together.

Which report comes is another matter, for the checks are made in order and an earlier
one may fail first.  The first half of the first byte is the version, the size field
is compared with the number of bytes, and everything else is left to the checksum.
The kind in the second half of the first byte is never reported, since the checksum
is compared before it.

For a packet of another size the bytes in front still state the old one, whatever
stands behind; the bounds on the size come first, though.
-/
import Mathlib.Algebra.Group.Nat.Defs
import ReliableDatagram.Proofs.Packet.Exactness

namespace ReliableDatagram

namespace Checksum

/-- What a byte at a position counts for in the sum of its words. -/
def weight (i : Nat) : Nat := 0x100 ^ (3 - i % 4)

theorem bigEndian_four (a b c d : UInt8) :
    bigEndian [a, b, c, d] =
      a.toNat * 0x1000000 + b.toNat * 0x10000 + c.toNat * 0x100 + d.toNat := by
  simp only [bigEndian, List.foldl]
  omega

theorem foldCarries_mod (n : Nat) : foldCarries n % 0xffff = n % 0xffff := by
  fun_induction foldCarries n with
  | case1 n h => rfl
  | case2 n h ih => omega

theorem wordSum_set (b : UInt8) :
    ∀ (bytes : Bytes) (i : Nat) (h : i < bytes.length),
      wordSum (bytes.set i b) + bytes[i].toNat * weight i =
        wordSum bytes + b.toNat * weight i := by
  intro bytes
  fun_induction wordSum bytes with
  | case1 => exact fun i h => absurd h (Nat.not_lt_zero i)
  | case2 x =>
      intro i h
      match i, h with
      | 0, _ =>
          simp only [List.set, wordSum, bigEndian_four, weight, Nat.reduceMod, Nat.reduceSub,
            Nat.reducePow, List.getElem_cons_zero]
          omega
  | case3 x y =>
      intro i h
      match i, h with
      | 0, _ | 1, _ =>
          simp only [List.set, wordSum, bigEndian_four, weight, Nat.reduceMod, Nat.reduceSub,
            Nat.reducePow, List.getElem_cons_zero, List.getElem_cons_succ]
          omega
  | case4 x y z =>
      intro i h
      match i, h with
      | 0, _ | 1, _ | 2, _ =>
          simp only [List.set, wordSum, bigEndian_four, weight, Nat.reduceMod, Nat.reduceSub,
            Nat.reducePow, List.getElem_cons_zero, List.getElem_cons_succ]
          omega
  | case5 x y z u rest ih =>
      intro i h
      match i, h with
      | 0, _ | 1, _ | 2, _ | 3, _ =>
          simp only [List.set, wordSum, bigEndian_four, weight, Nat.reduceMod, Nat.reduceSub,
            Nat.reducePow, List.getElem_cons_zero, List.getElem_cons_succ]
          omega
      -- behind the first word the byte belongs to a later one, where it weighs as much
      | i + 4, h =>
          have hi : i < rest.length := by
            simp only [List.length_cons] at h
            omega
          have := ih i hi
          have hw : weight (i + 4) = weight i := by rw [weight, weight, Nat.add_mod_right]
          simp only [List.set, wordSum, List.getElem_cons_succ, hw]
          omega

/-- No two bytes count for the same modulo 65535. -/
theorem eq_of_weighted {x y : Nat} {a b : UInt8} (i : Nat)
    (h : x + a.toNat * weight i = y + b.toNat * weight i) (hm : x % 0xffff = y % 0xffff) :
    a = b := by
  have ha := a.toNat_lt
  have hb := b.toNat_lt
  have hi : i % 4 < 4 := Nat.mod_lt _ (by decide)
  apply UInt8.toNat_inj.mp
  rw [weight] at h
  generalize i % 4 = j at h hi
  match j, hi with
  | 0, _ | 1, _ | 2, _ | 3, _ =>
      simp only [Nat.reduceSub, Nat.reducePow] at h
      omega

theorem mod_eq_of_checksum {h h' p p' : Bytes} (he : checksum h p = checksum h' p') :
    (wordSum h + wordSum p) % 0xffff = (wordSum h' + wordSum p') % 0xffff := by
  have hs := foldCarries_lt (wordSum h + wordSum p)
  have hs' := foldCarries_lt (wordSum h' + wordSum p')
  have hw := congrArg UInt32.toNat (UInt32.not_inj.mp he)
  rw [UInt32.toNat_ofNat', UInt32.toNat_ofNat', Nat.mod_eq_of_lt (by omega),
    Nat.mod_eq_of_lt (by omega)] at hw
  rw [← foldCarries_mod, hw, foldCarries_mod]

theorem eq_of_checksum {h h' p p' : Bytes} {a b : UInt8} (i : Nat)
    (hs : wordSum h' + wordSum p' + a.toNat * weight i =
      wordSum h + wordSum p + b.toNat * weight i)
    (he : checksum h p = checksum h' p') : a = b :=
  eq_of_weighted i hs (mod_eq_of_checksum he).symm

end Checksum

namespace Packet

open Checksum

theorem set_of_getElem_eq {bytes : Bytes} {i : Nat} {b : UInt8} (h : i < bytes.length)
    (hb : bytes[i] = b) : bytes.set i b = bytes := by
  rw [← hb, List.set_getElem_self]

theorem getElem_eq_of_numberAt_set {bytes : Bytes} {start width i : Nat} {b : UInt8}
    (hw : width = 2 ∨ width = 4) (hlen : start + width ≤ bytes.length) (hmin : start ≤ i)
    (hmax : i < start + width) (h : i < bytes.length)
    (he : numberAt (bytes.set i b) start width = numberAt bytes start width) : bytes[i] = b := by
  have hfield : ((bytes.drop start).take width).length = width := by
    rw [List.length_take, List.length_drop]
    omega
  rw [numberAt, numberAt, List.drop_set, if_neg (by omega), List.take_set] at he
  have hset := eq_of_bigEndian_eq (by rwa [List.length_set, hfield])
    (by rw [List.length_set]) he
  have hb := List.getElem_of_eq hset (i := i - start) (by rw [List.length_set, hfield]; omega)
  rw [List.getElem_set_self, List.getElem_take, List.getElem_drop] at hb
  rw [hb]
  congr 1
  omega

theorem numberAt_set_of_not_mem {bytes : Bytes} {start width i : Nat} {b : UInt8}
    (h : i < start ∨ start + width ≤ i) :
    numberAt (bytes.set i b) start width = numberAt bytes start width := by
  rcases Nat.lt_or_ge i start with hi | hi
  · rw [numberAt, List.drop_set_of_lt hi, ← numberAt]
  · rw [numberAt, List.drop_set, if_neg (by omega), List.take_set_of_le (by omega), ← numberAt]

theorem eq_of_checksum_set_header {header payload : Bytes} {i : Nat} {b : UInt8}
    (h : i < header.length)
    (he : Checksum.checksum header payload = Checksum.checksum (header.set i b) payload) :
    header[i] = b := by
  have hs := wordSum_set b header i h
  exact eq_of_checksum i (by omega) he

theorem eq_of_checksum_set_payload {header payload : Bytes} {i : Nat} {b : UInt8}
    (h : i < payload.length)
    (he : Checksum.checksum header payload = Checksum.checksum header (payload.set i b)) :
    payload[i] = b := by
  have hs := wordSum_set b payload i h
  exact eq_of_checksum i (by omega) he

/-! ## One byte exchanged -/

section Exchanged

variable {p : Packet} {i : Nat} {b : UInt8}

theorem minSize_encode (p : Packet) : 16 ≤ p.encode.length := by
  rw [p.length_encode, size, headerSize]
  omega

theorem found_eq_expected (p : Packet) : Check.found p.encode = Check.expected p.encode := by
  rw [Check.found, found_encode, UInt32.ofNat_toNat]
  rfl

theorem eq_of_found_front (h : i < p.encode.length) (hi : i < 12)
    (hsum : Check.found (p.encode.set i b) = Check.expected (p.encode.set i b)) :
    p.encode[i] = b := by
  rw [Check.found, numberAt_set_of_not_mem (.inl hi), ← Check.found, p.found_eq_expected,
    Check.expected, Check.expected, List.take_set,
    List.drop_set_of_lt (by rw [headerSize]; omega)] at hsum
  have hlen : i < (p.encode.take 12).length := by
    rw [List.length_take]
    omega
  rw [← eq_of_checksum_set_header hlen hsum, List.getElem_take]

theorem eq_of_found_checksum (h : i < p.encode.length) (hmin : 12 ≤ i) (hmax : i < 16)
    (hsum : Check.found (p.encode.set i b) = Check.expected (p.encode.set i b)) :
    p.encode[i] = b := by
  have hsize := p.minSize_encode
  rw [Check.expected, List.take_set_of_le hmin, List.drop_set_of_lt (by rw [headerSize]; omega),
    ← Check.expected, ← p.found_eq_expected] at hsum
  have he := congrArg UInt32.toNat hsum
  rw [Check.found, Check.found,
    UInt32.toNat_ofNat_of_lt' (numberAt_lt (by rw [List.length_set]; omega)),
    UInt32.toNat_ofNat_of_lt' (numberAt_lt (by omega))] at he
  exact getElem_eq_of_numberAt_set (.inr rfl) (by omega) hmin hmax h he

theorem eq_of_found_payload (h : i < p.encode.length) (hi : 16 ≤ i)
    (hsum : Check.found (p.encode.set i b) = Check.expected (p.encode.set i b)) :
    p.encode[i] = b := by
  rw [Check.found, numberAt_set_of_not_mem (.inr hi), ← Check.found, p.found_eq_expected,
    Check.expected, Check.expected, List.take_set_of_le (by omega), List.drop_set,
    if_neg (by rw [headerSize]; omega)] at hsum
  have hlen : i - headerSize < (p.encode.drop headerSize).length := by
    rw [List.length_drop, headerSize]
    omega
  rw [← eq_of_checksum_set_payload hlen hsum, List.getElem_drop]
  congr 1
  rw [headerSize]
  omega

/-- With one byte exchanged for another a packet fails the checksum, wherever the byte stands. -/
theorem eq_of_found_set (h : i < p.encode.length)
    (hsum : Check.found (p.encode.set i b) = Check.expected (p.encode.set i b)) :
    p.encode[i] = b := by
  rcases Nat.lt_or_ge i 12 with hfront | hmin
  · exact eq_of_found_front h hfront hsum
  · rcases Nat.lt_or_ge i 16 with hmax | hpayload
    · exact eq_of_found_checksum h hmin hmax hsum
    · exact eq_of_found_payload h hpayload hsum

theorem decode_set {q : Packet} (h : decode (p.encode.set i b) = .ok q) :
    p.encode.set i b = p.encode := by
  have hsum := q.found_eq_expected
  rw [encode_of_decode h] at hsum
  by_cases hlt : i < p.encode.length
  · exact set_of_getElem_eq hlt (eq_of_found_set hlt hsum)
  · exact List.set_eq_of_length_le (Nat.le_of_not_lt hlt)

/-! ## What the reader reports -/

theorem passes_bounds_set : Check.bounds.passes (p.encode.set i b) = true := by
  rw [← p.passes_encode Check.bounds (by simp [Check.all])]
  simp only [Check.bounds, List.length_set]

theorem getD_set_zero {bytes : Bytes} (h : 0 < bytes.length) : (bytes.set 0 b).getD 0 0 = b := by
  rw [List.getD_eq_getElem?_getD, List.getElem?_set_self h, Option.getD_some]

/-- The first half of the first byte alone decides the version. -/
theorem fails_version_set : Check.version.passes (p.encode.set i b) = false ↔
    i = 0 ∧ b.toNat / 16 ≠ version := by
  have hmin := p.minSize_encode
  rw [Check.fails_version]
  by_cases hi : i = 0
  · subst hi
    rw [getD_set_zero (by omega)]
    exact (and_iff_right rfl).symm
  · rw [List.getD_eq_getElem?_getD, List.getElem?_set_ne hi,
      ← List.getD_eq_getElem?_getD, p.version_encode]
    exact iff_of_false (not_not_intro rfl) fun h => hi h.1

theorem passes_size_set (h : ¬ (i = 2 ∨ i = 3)) :
    Check.size.passes (p.encode.set i b) = true := by
  have hfield : numberAt (p.encode.set i b) 2 2 = numberAt p.encode 2 2 :=
    numberAt_set_of_not_mem (by omega)
  rw [← p.passes_encode Check.size (by simp [Check.all])]
  simp only [Check.size, hfield, List.length_set]

/-- An exchanged byte is reported by the check that its position belongs to. -/
theorem decode_of_exchanged (h : i < p.encode.length) (hne : b ≠ p.encode[i]) :
    decode (p.encode.set i b) = .error
      (if i = 0 ∧ b.toNat / 16 ≠ p.encode[i].toNat / 16 then
        .unsupportedVersion (b.toNat / 16)
      else if i = 2 ∨ i = 3 then
        .sizeMismatch (numberAt (p.encode.set i b) 2 2) p.size
      else
        .checksumMismatch (Check.expected (p.encode.set i b))
          (Check.found (p.encode.set i b))) := by
  have hmin := p.minSize_encode
  have hlead : i = 0 ∧ b.toNat / 16 ≠ p.encode[i].toNat / 16 ↔ i = 0 ∧ b.toNat / 16 ≠ version := by
    refine and_congr_right fun hi => ?_
    subst hi
    exact p.version_encode ▸ Iff.rfl
  simp only [hlead]
  -- in the order of the checks: whatever comes before the one that fails still passes
  by_cases hv : i = 0 ∧ b.toNat / 16 ≠ version
  · rw [if_pos hv, decode_of_fails [Check.bounds] [Check.size, Check.checksum, Check.kind] rfl
      (by simp [passes_bounds_set]) (fails_version_set.mpr hv)]
    obtain ⟨rfl, -⟩ := hv
    simp only [Check.version, getD_set_zero h]
  · have hversion : Check.version.passes (p.encode.set i b) = true :=
      Bool.not_eq_false _ ▸ mt fails_version_set.mp hv
    rw [if_neg hv]
    by_cases hi : i = 2 ∨ i = 3
    · have hfails : Check.size.passes (p.encode.set i b) = false := by
        rw [Check.fails_size, List.length_set, p.length_encode, ← declared_encode]
        exact fun he => hne (getElem_eq_of_numberAt_set (.inl rfl) (by omega) (by omega)
          (by omega) h he).symm
      rw [if_pos hi, decode_of_fails [Check.bounds, Check.version] [Check.checksum, Check.kind]
        rfl (by simp [passes_bounds_set, hversion]) hfails]
      simp only [Check.size, List.length_set, p.length_encode]
    · have hfails : Check.checksum.passes (p.encode.set i b) = false := by
        rw [Check.fails_checksum]
        exact fun hsum => hne (eq_of_found_set h hsum).symm
      rw [if_neg hi]
      exact decode_of_fails [Check.bounds, Check.version, Check.size] [Check.kind] rfl
        (by simp [passes_bounds_set, hversion, passes_size_set hi]) hfails

end Exchanged

theorem decode_of_take_eq {p : Packet} {bytes : Bytes} (h : bytes.take 4 = p.encode.take 4)
    (hb : Check.bounds.passes bytes = true) (hlen : bytes.length ≠ p.size) :
    decode bytes = .error (.sizeMismatch p.size bytes.length) := by
  have hlead : bytes.getD 0 0 = p.encode.getD 0 0 := by
    have hzero := congrArg (·.getD 0 0) h
    simpa only [List.getD_eq_getElem?_getD, List.getElem?_take_of_lt (Nat.zero_lt_succ 3)]
      using hzero
  have hdeclared : numberAt bytes 2 2 = p.size := by
    have htwo := congrArg (List.drop 2) h
    rw [List.drop_take, List.drop_take] at htwo
    rw [← declared_encode]
    exact congrArg bigEndian htwo
  have hv : Check.version.passes bytes = true := by
    rw [← p.passes_encode Check.version (by simp [Check.all])]
    simp only [Check.version, hlead]
  have hs : Check.size.passes bytes = false := by
    rw [Check.fails_size, hdeclared]
    exact hlen.symm
  rw [decode_of_fails [Check.bounds, Check.version] [Check.checksum, Check.kind] rfl
    (by simp [hb, hv]) hs]
  simp only [Check.size, hdeclared]

theorem decode_of_isPrefix {p : Packet} {front : Bytes} (h : front <+: p.encode)
    (hne : front ≠ p.encode) :
    decode front = .error
      (if front.length < 16 then .malformed front.length
      else .sizeMismatch p.size front.length) := by
  have hlen : front.length < p.size := by
    rw [← p.length_encode]
    exact Nat.lt_of_le_of_ne h.length_le (mt h.eq_of_length hne)
  have hmax := p.size_le
  split
  · next hmin =>
      have hb : Check.bounds.passes front = false := Check.fails_bounds.mpr (.inl hmin)
      exact decode_of_fails [] [Check.version, Check.size, Check.checksum, Check.kind] rfl
        (by simp) hb
  · next hmin =>
      refine decode_of_take_eq ?_ ?_ (Nat.ne_of_lt hlen)
      · rw [List.prefix_iff_eq_take.mp h, List.take_take, Nat.min_eq_left (by omega)]
      · rw [← Bool.not_eq_false, Check.fails_bounds, headerSize]
        omega

theorem decode_of_encode_isPrefix {p : Packet} {longer : Bytes} (h : p.encode <+: longer)
    (hne : longer ≠ p.encode) :
    decode longer = .error
      (if 1416 < longer.length then .malformed longer.length
      else .sizeMismatch p.size longer.length) := by
  have hlen : p.size < longer.length := by
    rw [← p.length_encode]
    exact Nat.lt_of_le_of_ne h.length_le (mt h.eq_of_length hne.symm)
  have hmin := p.minSize_encode
  split
  · next hmax =>
      have hb : Check.bounds.passes longer = false := Check.fails_bounds.mpr (.inr hmax)
      exact decode_of_fails [] [Check.version, Check.size, Check.checksum, Check.kind] rfl
        (by simp) hb
  · next hmax =>
      refine decode_of_take_eq ?_ ?_ (Nat.ne_of_gt hlen)
      · rw [List.prefix_iff_eq_take.mp h, List.take_take, Nat.min_eq_left (by omega)]
      · rw [p.length_encode] at hmin
        rw [← Bool.not_eq_false, Check.fails_bounds, headerSize, maxPacketSize, headerSize,
          maxPayload]
        omega

theorem decode_take {p q : Packet} {n : Nat} (h : decode (p.encode.take n) = .ok q) :
    p.encode.take n = p.encode := by
  by_cases heq : p.encode.take n = p.encode
  · exact heq
  · rw [decode_of_isPrefix (List.take_prefix n p.encode) heq] at h
    cases h

/-! ## Main result -/

/-- Whatever packet was written: with one byte exchanged, cut short or with bytes behind it, it is
rejected.  An exchanged byte is reported by its position, another size as such. -/
theorem decode_of_damage (p : Packet) :
    (∀ i (h : i < p.encode.length) (b : UInt8), b ≠ p.encode[i] →
      decode (p.encode.set i b) = .error
        (if i = 0 ∧ b.toNat / 16 ≠ p.encode[i].toNat / 16 then
          .unsupportedVersion (b.toNat / 16)
        else if i = 2 ∨ i = 3 then
          .sizeMismatch (numberAt (p.encode.set i b) 2 2) p.size
        else
          .checksumMismatch (Check.expected (p.encode.set i b))
            (Check.found (p.encode.set i b)))) ∧
    (∀ front, front <+: p.encode → front ≠ p.encode →
      decode front = .error
        (if front.length < 16 then .malformed front.length
        else .sizeMismatch p.size front.length)) ∧
    (∀ longer, p.encode <+: longer → longer ≠ p.encode →
      decode longer = .error
        (if 1416 < longer.length then .malformed longer.length
        else .sizeMismatch p.size longer.length)) :=
  ⟨fun _ h _ hne => decode_of_exchanged h hne, fun _ h hne => decode_of_isPrefix h hne,
    fun _ h hne => decode_of_encode_isPrefix h hne⟩

/-- A packet of one byte: with its payload exchanged, its first half missing, and a byte too much. -/
theorem decode_of_damage_seven :
    let p := Packet.data ⟨1⟩ [7]
    let exchanged := p.encode.set 16 8
    (∃ h : 16 < p.encode.length, (8 : UInt8) ≠ p.encode[16]) ∧
      decode exchanged = .error (.checksumMismatch (Check.expected exchanged)
        (Check.found exchanged)) ∧
      (p.encode.take 8 <+: p.encode ∧ p.encode.take 8 ≠ p.encode) ∧
      decode (p.encode.take 8) = .error (.malformed 8) ∧
      (p.encode <+: p.encode ++ [7] ∧ p.encode ++ [7] ≠ p.encode) ∧
      decode (p.encode ++ [7]) = .error (.sizeMismatch 17 18) := by
  intro p exchanged
  have hbyte : ∃ h : 16 < p.encode.length, (8 : UInt8) ≠ p.encode[16] :=
    ⟨by decide, by decide⟩
  have hfront : p.encode.take 8 <+: p.encode ∧ p.encode.take 8 ≠ p.encode :=
    ⟨List.take_prefix 8 p.encode, by decide⟩
  have hlonger : p.encode <+: p.encode ++ [7] ∧ p.encode ++ [7] ≠ p.encode :=
    ⟨List.prefix_append p.encode [7], by simp⟩
  obtain ⟨byte, front, longer⟩ := decode_of_damage p
  exact ⟨hbyte, byte 16 hbyte.1 8 hbyte.2, hfront, front _ hfront.1 hfront.2, hlonger,
    longer _ hlonger.1 hlonger.2⟩

end Packet

end ReliableDatagram
