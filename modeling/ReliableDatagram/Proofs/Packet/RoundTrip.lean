/-
Reading a packet off the bytes that it was written to.

The header is sixteen bytes whatever the packet, so each field is found by
taking the list apart; what remains are the ranges of the numbers, which the
packet's types carry.

Each field has one lemma: what stands at its place in the bytes of a packet.  The
size fits into sixteen bits because the payload is bounded, the kind and the version
into four bits each, and the two numbers and the checksum are words.  With these
lemmas every check of the reader passes, one after the other, and the packet that
the fields describe is the one that was written.

Damage and exactness, in the two modules beside this one, start from these lemmas;
none of them takes the bytes of a packet apart again.
-/
import ReliableDatagram.Packet.Wire

namespace ReliableDatagram.Packet

theorem size_lt (p : Packet) : p.size < 0x10000 := by
  have := p.size_le
  simp only [maxPacketSize, headerSize, maxPayload] at this
  omega

theorem lead_encode (p : Packet) : (p.encode.getD 0 0).toNat = version * 16 + p.kind.code := by
  have hc := p.kind.code_lt
  show (UInt8.ofNat (version * 16 + p.kind.code)).toNat = _
  rw [UInt8.toNat_ofNat', version]
  omega

theorem version_encode (p : Packet) : (p.encode.getD 0 0).toNat / 16 = version := by
  have hc := p.kind.code_lt
  rw [lead_encode, version]
  omega

theorem declared_encode (p : Packet) : numberAt p.encode 2 2 = p.size :=
  bigEndian_bytes16 p.size_lt

theorem seq_encode (p : Packet) : numberAt p.encode 4 4 = p.seq.word.toNat :=
  bigEndian_bytes32 p.seq.word.toNat_lt

theorem ack_encode (p : Packet) : numberAt p.encode 8 4 = p.ack.word.toNat :=
  bigEndian_bytes32 p.ack.word.toNat_lt

theorem found_encode (p : Packet) : numberAt p.encode 12 4 = p.checksum.toNat :=
  bigEndian_bytes32 p.checksum.toNat_lt

theorem header_encode (p : Packet) : p.encode.take 12 = p.header := rfl

theorem payload_encode (p : Packet) : p.encode.drop headerSize = p.payload := rfl

theorem ofFields_encode (p : Packet) : ofFields p.kind p.encode = p := by
  rw [ofFields, seq_encode, ack_encode, payload_encode, UInt32.ofNat_toNat, UInt32.ofNat_toNat]
  exact p.new_self

theorem decode_encode (p : Packet) : decode p.encode = .ok p := by
  have hlen := p.length_encode
  have hsize := p.size_le
  have hlead := p.lead_encode
  have hc := p.kind.code_lt
  have hv := p.version_encode
  have hk : (p.encode.getD 0 0).toNat % 16 = p.kind.code := by
    rw [hlead, version]
    omega
  simp only [decode]
  rw [if_neg, if_neg (not_not_intro hv), if_neg, if_neg, hk, PacketKind.ofCode?_code]
  · exact congrArg Except.ok p.ofFields_encode
  · rw [found_encode, header_encode, payload_encode, UInt32.ofNat_toNat]
    exact not_not_intro rfl
  · rw [declared_encode, hlen]
    exact not_not_intro rfl
  · rw [hlen]
    have : headerSize ≤ p.size := Nat.le_add_right _ _
    omega

end ReliableDatagram.Packet
