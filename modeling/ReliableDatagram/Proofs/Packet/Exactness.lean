/-
Reading and writing are inverse to each other.

The reader accepts exactly the bytes that the writer produces: what it makes
of them is written back byte for byte, and whatever else it is given it
rejects with the report of the first check that fails.  The checks stand here
as a list in their order, apart from the reader, and one lemma says that the
reader goes by that list.

From the bytes to the packet and back takes more than the fields.  A field is
written as the bytes it was read from only if it stands in full, the first byte
comes back only if its upper half is the version and its lower half a kind, and the
size field comes back because it was compared with the number of bytes.  All of this
is what bytes have that pass every check, so the proof goes from the checks to the
fields and from there to the bytes.

The size of a packet goes into a field of sixteen bits, and the program converts it
with a check of its own.  Building and writing with that check never fail: nothing
that is built or written is too great for the field.
-/
import ReliableDatagram.Proofs.Packet.RoundTrip

namespace ReliableDatagram

/-! ## The checks of a reader -/

/-- What a reader asks of some bytes, and what it reports if they are not so. -/
structure Check where
  passes : Bytes → Bool
  defect : Bytes → DecodeError

namespace Check

def bounds : Check where
  passes bytes := 16 ≤ bytes.length && bytes.length ≤ 1416
  defect bytes := .malformed bytes.length

def version : Check where
  passes bytes := (bytes.getD 0 0).toNat / 16 == 1
  defect bytes := .unsupportedVersion ((bytes.getD 0 0).toNat / 16)

def size : Check where
  passes bytes := numberAt bytes 2 2 == bytes.length
  defect bytes := .sizeMismatch (numberAt bytes 2 2) bytes.length

/-- The checksum that some bytes ask for. -/
def expected (bytes : Bytes) : UInt32 :=
  Checksum.checksum (bytes.take 12) (bytes.drop headerSize)

/-- The checksum that they carry. -/
def found (bytes : Bytes) : UInt32 := UInt32.ofNat (numberAt bytes 12 4)

def checksum : Check where
  passes bytes := found bytes == expected bytes
  defect bytes := .checksumMismatch (expected bytes) (found bytes)

def kind : Check where
  passes bytes := (PacketKind.ofCode? ((bytes.getD 0 0).toNat % 16)).isSome
  defect bytes := .unknownKind ((bytes.getD 0 0).toNat % 16)

/-- All checks, in the order in which they are made. -/
def all : List Check := [bounds, version, size, checksum, kind]

/-- The report of the first check that some bytes fail. -/
def firstDefect? (checks : List Check) (bytes : Bytes) : Option DecodeError :=
  (checks.find? fun check => ! check.passes bytes).map fun check => check.defect bytes

section Passes

variable {bytes : Bytes}

theorem fails_bounds : bounds.passes bytes = false ↔
    bytes.length < headerSize ∨ maxPacketSize < bytes.length := by
  simp only [bounds, headerSize, maxPacketSize, maxPayload, Bool.and_eq_false_iff,
    decide_eq_false_iff_not]
  omega

theorem fails_version :
    version.passes bytes = false ↔ (bytes.getD 0 0).toNat / 16 ≠ Packet.version :=
  beq_eq_false_iff_ne

theorem fails_size : size.passes bytes = false ↔ numberAt bytes 2 2 ≠ bytes.length :=
  beq_eq_false_iff_ne

theorem fails_checksum : checksum.passes bytes = false ↔ found bytes ≠ expected bytes :=
  beq_eq_false_iff_ne

theorem fails_kind : kind.passes bytes = false ↔
    PacketKind.ofCode? ((bytes.getD 0 0).toNat % 16) = none :=
  Option.isSome_eq_false_iff.trans Option.isNone_iff_eq_none

theorem holds_of_firstDefect?_eq_none (h : firstDefect? all bytes = none) :
    (headerSize ≤ bytes.length ∧ bytes.length ≤ maxPacketSize) ∧
      (bytes.getD 0 0).toNat / 16 = Packet.version ∧ numberAt bytes 2 2 = bytes.length ∧
      found bytes = expected bytes ∧
      ∃ k, PacketKind.ofCode? ((bytes.getD 0 0).toNat % 16) = some k := by
  have hall : ∀ c ∈ all, c.passes bytes ≠ false := by
    simpa [firstDefect?] using h
  have hb := mt fails_bounds.mpr (hall bounds (by simp [all]))
  have hv := mt fails_version.mpr (hall version (by simp [all]))
  have hs := mt fails_size.mpr (hall size (by simp [all]))
  have hc := mt fails_checksum.mpr (hall checksum (by simp [all]))
  have hk := mt fails_kind.mpr (hall kind (by simp [all]))
  exact ⟨by omega, Decidable.not_not.mp hv, Decidable.not_not.mp hs, Decidable.not_not.mp hc,
    Option.ne_none_iff_exists'.mp hk⟩

end Passes

/-- What a reader answers that makes some checks before it has a packet. -/
def judge (checks : List Check) (bytes : Bytes) (p : Packet) : Except DecodeError Packet :=
  match firstDefect? checks bytes with
  | some e => .error e
  | none => .ok p

theorem judge_cons (c : Check) (checks : List Check) (bytes : Bytes) (p : Packet) :
    judge (c :: checks) bytes p =
      if c.passes bytes = false then .error (c.defect bytes) else judge checks bytes p := by
  cases h : c.passes bytes with
  | false => simp [judge, firstDefect?, h]
  | true => simp [judge, firstDefect?, h]

end Check

namespace Packet

open Check

/-- The kind that the first byte names, or `data` if it names none. -/
def leadKind (bytes : Bytes) : PacketKind :=
  (PacketKind.ofCode? ((bytes.getD 0 0).toNat % 16)).getD .data

/-- A reader goes by the first check that fails, and else by the fields of the header. -/
theorem decode_eq_judge (bytes : Bytes) :
    decode bytes = judge all bytes (ofFields (leadKind bytes) bytes) := by
  simp only [all, judge_cons, fails_bounds, fails_version, fails_size, fails_checksum, fails_kind]
  cases hk : PacketKind.ofCode? ((bytes.getD 0 0).toNat % 16) with
  | none => simp only [decode, hk, if_true]; rfl
  | some kind => simp only [decode, hk, leadKind]; rfl

/-! ## Writing what was read -/

theorem numberAt_lt {bytes : Bytes} {start : Nat} (h : start + 4 ≤ bytes.length) :
    numberAt bytes start 4 < 0x100000000 := by
  refine bigEndian_lt ?_
  rw [List.length_take, List.length_drop]
  omega

theorem bytes32_numberAt {bytes : Bytes} {start : Nat} (h : start + 4 ≤ bytes.length) :
    bytes32 (UInt32.ofNat (numberAt bytes start 4)).toNat = (bytes.drop start).take 4 := by
  rw [UInt32.toNat_ofNat_of_lt' (numberAt_lt h)]
  refine bytes32_bigEndian ?_
  rw [List.length_take, List.length_drop]
  omega

theorem ofNat_lead {lead : UInt8} {kind : PacketKind} (hv : lead.toNat / 16 = version)
    (hk : PacketKind.ofCode? (lead.toNat % 16) = some kind) :
    UInt8.ofNat (version * 16 + kind.code) = lead := by
  have hlt := lead.toNat_lt
  apply UInt8.toNat_inj.mp
  rw [PacketKind.code_of_ofCode? hk, ← hv, UInt8.toNat_ofNat']
  omega

theorem take_two : ∀ {bytes : Bytes}, 2 ≤ bytes.length →
    bytes.take 2 = [bytes.getD 0 0, bytes.getD 1 0]
  | _ :: _ :: _, _ => rfl

section OfFields

variable {bytes : Bytes} {k : PacketKind}

theorem payload_ofFields (h : bytes.length ≤ maxPacketSize) :
    (ofFields k bytes).payload = bytes.drop headerSize := by
  refine List.take_of_length_le ?_
  rw [List.length_drop]
  simp only [maxPacketSize] at h
  omega

theorem size_ofFields (hmin : headerSize ≤ bytes.length) (hmax : bytes.length ≤ maxPacketSize) :
    (ofFields k bytes).size = bytes.length := by
  rw [size, payload_ofFields hmax, List.length_drop]
  omega

theorem header_ofFields (hmin : headerSize ≤ bytes.length) (hmax : bytes.length ≤ maxPacketSize)
    (hv : (bytes.getD 0 0).toNat / 16 = version) (hs : numberAt bytes 2 2 = bytes.length)
    (hk : PacketKind.ofCode? ((bytes.getD 0 0).toNat % 16) = some k) :
    (ofFields k bytes).header = bytes.take 12 := by
  rw [headerSize] at hmin
  have htwo := take_two (show 2 ≤ bytes.length by omega)
  have hsize : bytes16 (ofFields k bytes).size = (bytes.drop 2).take 2 := by
    rw [size_ofFields (by rwa [headerSize]) hmax, ← hs]
    refine bytes16_bigEndian ?_
    rw [List.length_take, List.length_drop]
    omega
  calc (ofFields k bytes).header
    _ = [UInt8.ofNat (version * 16 + k.code), bytes.getD 1 0] ++
          bytes16 (ofFields k bytes).size ++
          bytes32 (UInt32.ofNat (numberAt bytes 4 4)).toNat ++
          bytes32 (UInt32.ofNat (numberAt bytes 8 4)).toNat := rfl
    _ = bytes.take 2 ++ (bytes.drop 2).take 2 ++ (bytes.drop 4).take 4 ++
          (bytes.drop 8).take 4 := by
      rw [ofNat_lead hv hk, hsize, bytes32_numberAt (by omega), bytes32_numberAt (by omega),
        htwo]
    _ = bytes.take 12 := by
      rw [← List.take_add, ← List.take_add, ← List.take_add]

theorem encode_ofFields (hmin : headerSize ≤ bytes.length) (hmax : bytes.length ≤ maxPacketSize)
    (hv : (bytes.getD 0 0).toNat / 16 = version) (hs : numberAt bytes 2 2 = bytes.length)
    (hc : found bytes = expected bytes)
    (hk : PacketKind.ofCode? ((bytes.getD 0 0).toNat % 16) = some k) :
    (ofFields k bytes).encode = bytes := by
  have hheader := header_ofFields hmin hmax hv hs hk
  have hpayload := payload_ofFields (k := k) hmax
  have hsum : (ofFields k bytes).checksum = found bytes := by
    rw [Packet.checksum, hheader, hpayload, hc, expected]
  rw [headerSize] at hmin
  rw [encode, hheader, hsum, hpayload, found, bytes32_numberAt (by omega), ← List.take_add]
  exact List.take_append_drop 16 bytes

end OfFields

/-- What a reader made of some bytes is written as these bytes. -/
theorem encode_of_decode {bytes : Bytes} {p : Packet} (h : decode bytes = .ok p) :
    p.encode = bytes := by
  rw [decode_eq_judge, judge] at h
  split at h
  · cases h
  · rename_i hnone
    obtain ⟨⟨hmin, hmax⟩, hv, hs, hc, k, hk⟩ := holds_of_firstDefect?_eq_none hnone
    cases h
    rw [leadKind, hk]
    exact encode_ofFields hmin hmax hv hs hc hk

/-- A reader accepts exactly what a writer writes. -/
theorem decode_eq_ok_iff {bytes : Bytes} {p : Packet} : decode bytes = .ok p ↔ p.encode = bytes :=
  ⟨encode_of_decode, fun h => h ▸ p.decode_encode⟩

theorem decode_eq_error_iff {bytes : Bytes} {e : DecodeError} :
    decode bytes = .error e ↔ firstDefect? all bytes = some e := by
  rw [decode_eq_judge, judge]
  cases firstDefect? all bytes with
  | none => simp
  | some defect => simp

theorem decode_of_fails {bytes : Bytes} {c : Check} (before after : List Check)
    (hall : all = before ++ c :: after) (hb : ∀ d ∈ before, d.passes bytes = true)
    (hc : c.passes bytes = false) : decode bytes = .error (c.defect bytes) := by
  have hnone : before.find? (fun d => ! d.passes bytes) = none := by
    simpa [List.find?_eq_none] using hb
  rw [decode_eq_error_iff, firstDefect?, hall, List.find?_append, hnone, Option.none_or,
    List.find?_cons, hc]
  rfl

theorem passes_encode (p : Packet) : ∀ c ∈ all, c.passes p.encode = true := by
  cases hd : firstDefect? all p.encode with
  | none => simpa [firstDefect?] using hd
  | some e =>
      have herr := decode_eq_error_iff.mpr hd
      rw [p.decode_encode] at herr
      cases herr

/-! ## The size field -/

/-- The word that states a size; a size of more than sixteen bits has none. -/
def sizeWord? (size : Nat) : Option UInt16 :=
  if size < UInt16.size then some (UInt16.ofNat size) else none

/-- The part of a header in front of the checksum, for a stated size. -/
def headerStating (kind : PacketKind) (flags : Flags) (seq ack : SeqNum) (size : UInt16) : Bytes :=
  [UInt8.ofNat (version * 16 + kind.code), flags.bits] ++
    bytes16 size.toNat ++ bytes32 seq.word.toNat ++ bytes32 ack.word.toNat

/-- Builds a packet together with its checksum, if its size can be stated. -/
def build? (kind : PacketKind) (flags : Flags) (seq ack : SeqNum) (payload : Bytes) :
    Option (Packet × UInt32) := do
  let kept := payload.take maxPayload
  let size ← sizeWord? (headerSize + kept.length)
  return (new kind flags seq ack payload,
    Checksum.checksum (headerStating kind flags seq ack size) kept)

/-- Writes a packet with the checksum that it was built with, if its size can be stated. -/
def write? (p : Packet) (checksum : UInt32) : Option Bytes := do
  let size ← sizeWord? p.size
  return headerStating p.kind p.flags p.seq p.ack size ++ bytes32 checksum.toNat ++ p.payload

theorem sizeWord?_size (p : Packet) :
    ∃ w, sizeWord? p.size = some w ∧ headerStating p.kind p.flags p.seq p.ack w = p.header := by
  have hlt := p.size_lt
  refine ⟨UInt16.ofNat p.size, if_pos hlt, ?_⟩
  rw [headerStating, UInt16.toNat_ofNat_of_lt' hlt]
  rfl

theorem build?_eq (kind : PacketKind) (flags : Flags) (seq ack : SeqNum) (payload : Bytes) :
    build? kind flags seq ack payload =
      some (new kind flags seq ack payload, (new kind flags seq ack payload).checksum) := by
  obtain ⟨w, hw, hh⟩ := (new kind flags seq ack payload).sizeWord?_size
  have hw' : sizeWord? (headerSize + (payload.take maxPayload).length) = some w := hw
  have hh' : headerStating kind flags seq ack w = (new kind flags seq ack payload).header := hh
  simp only [build?, hw', Option.bind_eq_bind, Option.bind_some, hh']
  rfl

theorem write?_eq (p : Packet) : write? p p.checksum = some p.encode := by
  obtain ⟨w, hw, hh⟩ := p.sizeWord?_size
  simp only [write?, hw, Option.bind_eq_bind, Option.bind_some, hh]
  rfl

/-! ## Main result -/

/-- Reading and writing are inverse to each other.  Every packet can be built and written, and is
read back; every packet that is read is written back, and carries the checksum that it was built
with; all other bytes are rejected with the report of the first check that they fail. -/
theorem decode_inverse_encode :
    (∀ kind flags seq ack payload,
      let p := new kind flags seq ack payload
      build? kind flags seq ack payload = some (p, p.checksum) ∧
        write? p p.checksum = some p.encode ∧ decode p.encode = .ok p ∧
        p.payload = payload.take (min payload.length 1400)) ∧
    (∀ bytes p, decode bytes = .ok p ↔
      p.encode = bytes ∧ found bytes = p.checksum ∧
        p = new p.kind p.flags p.seq p.ack p.payload) ∧
    (∀ bytes, (∃ p, decode bytes = .ok p) ↔ ∃ p : Packet, p.encode = bytes) ∧
    (∀ bytes, (∃ e, decode bytes = .error e) ↔ ∀ p : Packet, p.encode ≠ bytes) ∧
    (∀ bytes e, decode bytes = .error e ↔ firstDefect? all bytes = some e) := by
  refine ⟨fun kind flags seq ack payload => ?_, fun bytes p => ?_, fun bytes => ?_,
    fun bytes => ?_, fun bytes e => decode_eq_error_iff⟩
  · refine ⟨build?_eq kind flags seq ack payload, write?_eq _, decode_encode _, ?_⟩
    rw [Nat.min_comm]
    exact List.take_eq_take_min
  · rw [decode_eq_ok_iff]
    refine ⟨fun h => ⟨h, ?_, p.new_self.symm⟩, And.left⟩
    rw [← h, found, found_encode, UInt32.ofNat_toNat]
  · exact exists_congr fun p => decode_eq_ok_iff
  · rw [← not_exists, ← exists_congr fun p => decode_eq_ok_iff]
    cases decode bytes with
    | ok p => simp
    | error e => simp

end Packet

end ReliableDatagram
