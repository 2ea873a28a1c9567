/-
Packets: what two end points exchange.

A packet has a kind, a byte of flags, two sequence numbers and a payload that fits
into one datagram.  Its type carries the bound on the payload, so every packet can
be written to the wire, and no writer has to ask.

Packets are only built by `new`, which cuts a payload that is too long, and by the
few forms that the protocol uses.  The flags repeat the kind for SYN, FIN and RST,
but nothing depends on that: a reader keeps whatever flags arrive, also those
without a meaning, and an end point looks at the kind and at the ACK flag only.
-/
import ReliableDatagram.Packet.BigEndian
import ReliableDatagram.SeqNum

namespace ReliableDatagram

/-- What a packet is for. -/
inductive PacketKind where
  | data
  | ack
  | syn
  | fin
  | rst
deriving DecidableEq

namespace PacketKind

/-- The kind's number on the wire, which fits into four bits. -/
def code : PacketKind → Nat
  | data => 1
  | ack => 2
  | syn => 3
  | fin => 4
  | rst => 5

def ofCode? : Nat → Option PacketKind
  | 1 => some data
  | 2 => some ack
  | 3 => some syn
  | 4 => some fin
  | 5 => some rst
  | _ => none

def name : PacketKind → String
  | data => "DATA"
  | ack => "ACK"
  | syn => "SYN"
  | fin => "FIN"
  | rst => "RST"

@[simp] theorem ofCode?_code (k : PacketKind) : ofCode? k.code = some k := by
  cases k <;> rfl

theorem code_of_ofCode? {n : Nat} {k : PacketKind} (h : ofCode? n = some k) : k.code = n := by
  unfold ofCode? at h
  split at h <;> simp_all [code] <;> subst h <;> rfl

theorem code_lt (k : PacketKind) : k.code < 16 := by
  cases k <;> decide

end PacketKind

/-- The flag byte of a packet.  Four bits have a meaning, the others are kept. -/
structure Flags where
  bits : UInt8
deriving DecidableEq

namespace Flags

def none : Flags := ⟨0⟩

def ack : Flags := ⟨1⟩

def syn : Flags := ⟨2⟩

def fin : Flags := ⟨4⟩

def rst : Flags := ⟨8⟩

def union (f g : Flags) : Flags := ⟨f.bits ||| g.bits⟩

/-- Whether all bits of `g` are set in `f`. -/
def contains (f g : Flags) : Bool := f.bits &&& g.bits == g.bits

end Flags

/-- Size of everything in front of the payload. -/
def headerSize : Nat := 16

/-- What a datagram can hold besides the headers of all layers. -/
def maxPayload : Nat := 1400

def maxPacketSize : Nat := headerSize + maxPayload

/-- One unit of the protocol. -/
structure Packet where
  kind : PacketKind
  flags : Flags
  seq : SeqNum
  /-- The next number that the sender of this packet expects. -/
  ack : SeqNum
  payload : Bytes
  payload_le : payload.length ≤ maxPayload
deriving DecidableEq

namespace Packet

/-- A packet with the given fields; of a payload that is too long only the
beginning is kept. -/
def new (kind : PacketKind) (flags : Flags) (seq ack : SeqNum) (payload : Bytes) : Packet where
  kind
  flags
  seq
  ack
  payload := payload.take maxPayload
  payload_le := List.length_take_le maxPayload payload

def data (seq : SeqNum) (payload : Bytes) : Packet := new .data .none seq .zero payload

def acknowledge (ack : SeqNum) : Packet := new .ack .ack .zero ack []

def syn (seq : SeqNum) : Packet := new .syn .syn seq .zero []

def synAck (seq ack : SeqNum) : Packet := new .syn (Flags.syn.union .ack) seq ack []

def fin (seq : SeqNum) : Packet := new .fin .fin seq .zero []

def finAck (seq ack : SeqNum) : Packet := new .fin (Flags.fin.union .ack) seq ack []

def rst (seq : SeqNum) : Packet := new .rst .rst seq .zero []

def size (p : Packet) : Nat := headerSize + p.payload.length

def isKind (p : Packet) (k : PacketKind) : Bool := p.kind == k

def hasFlag (p : Packet) (f : Flags) : Bool := p.flags.contains f

@[simp] theorem new_self (p : Packet) : new p.kind p.flags p.seq p.ack p.payload = p := by
  cases p with
  | mk kind flags seq ack payload h => simp [new, List.take_of_length_le h]

theorem size_le (p : Packet) : p.size ≤ maxPacketSize :=
  Nat.add_le_add_left p.payload_le headerSize

end Packet

end ReliableDatagram
