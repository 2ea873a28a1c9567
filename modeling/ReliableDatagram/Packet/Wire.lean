/-
The wire form of a packet, with writer and reader.

A packet takes sixteen bytes of header and then its payload, every number
with its high byte first:

    0      version (high half) and kind (low half)
    1      flags
    2..3   size of the whole packet
    4..7   sequence number
    8..11  number the sender expects next
    12..15 checksum over bytes 0..11 and the payload

The reader checks in one order: size bounds, version, stated size, checksum,
kind.  The first check that fails names the defect.
-/
import ReliableDatagram.Packet.Basic
import ReliableDatagram.Packet.Checksum

namespace ReliableDatagram

/-- Why bytes are no packet. -/
inductive DecodeError where
  /-- Shorter than a header or longer than any packet. -/
  | malformed (size : Nat)
  | unsupportedVersion (version : Nat)
  | sizeMismatch (declared actual : Nat)
  /-- The bytes ask for `expected` and carry `found`. -/
  | checksumMismatch (expected found : UInt32)
  | unknownKind (code : Nat)
deriving DecidableEq

/-- The low `width` hexadecimal digits of a number, in capitals. -/
def hexDigits : (width n : Nat) → List Char
  | 0, _ => []
  | width + 1, n => hexDigits width (n / 16) ++ [(Nat.digitChar (n % 16)).toUpper]

/-- Eight hexadecimal digits behind 0x. -/
def hexWord (w : UInt32) : String := "0x" ++ String.ofList (hexDigits 8 w.toNat)

def DecodeError.message : DecodeError → String
  | malformed size => s!"malformed packet: {size} bytes"
  | unsupportedVersion version => s!"unsupported protocol version: {version}"
  | sizeMismatch declared actual =>
    s!"packet length mismatch: declared {declared}, got {actual}"
  | checksumMismatch expected found =>
    "checksum mismatch: expected " ++ hexWord expected ++ ", got " ++ hexWord found
  | unknownKind code => s!"unknown packet type: {code}"

namespace Packet

def version : Nat := 1

/-- The part of the header in front of the checksum. -/
def header (p : Packet) : Bytes :=
  [UInt8.ofNat (version * 16 + p.kind.code), p.flags.bits] ++
    bytes16 p.size ++ bytes32 p.seq.word.toNat ++ bytes32 p.ack.word.toNat

def checksum (p : Packet) : UInt32 := Checksum.checksum p.header p.payload

def encode (p : Packet) : Bytes := p.header ++ bytes32 p.checksum.toNat ++ p.payload

/-- The packet that the header fields of `bytes` describe, given its kind. -/
def ofFields (kind : PacketKind) (bytes : Bytes) : Packet :=
  new kind ⟨bytes.getD 1 0⟩ ⟨UInt32.ofNat (numberAt bytes 4 4)⟩
    ⟨UInt32.ofNat (numberAt bytes 8 4)⟩ (bytes.drop headerSize)

/-- Reads a packet off the wire, or names the first defect. -/
def decode (bytes : Bytes) : Except DecodeError Packet :=
  let lead := (bytes.getD 0 0).toNat
  let declared := numberAt bytes 2 2
  let found := UInt32.ofNat (numberAt bytes 12 4)
  let expected := Checksum.checksum (bytes.take 12) (bytes.drop headerSize)
  if bytes.length < headerSize ∨ maxPacketSize < bytes.length then
    .error (.malformed bytes.length)
  else if lead / 16 ≠ version then
    .error (.unsupportedVersion (lead / 16))
  else if declared ≠ bytes.length then
    .error (.sizeMismatch declared bytes.length)
  else if found ≠ expected then
    .error (.checksumMismatch expected found)
  else match PacketKind.ofCode? (lead % 16) with
    | some kind => .ok (ofFields kind bytes)
    | none => .error (.unknownKind (lead % 16))

theorem length_header (p : Packet) : p.header.length = 12 := rfl

theorem length_encode (p : Packet) : p.encode.length = p.size := by
  simp only [encode, size, bytes32, headerSize, length_header, List.length_append,
    List.length_cons, List.length_nil]

end Packet

end ReliableDatagram
