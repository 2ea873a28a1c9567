/-
Addresses of end points: a host and a port on it.

A host is known by four bytes, or by eight groups of 16 bits together with the
zone in which they hold.  Two addresses are the same if their numbers are, however
they were written: an end point compares peers by these numbers alone, so a peer
that is written in two ways is one peer with one connection.

The order of addresses is that of their texts, byte by byte.  It has no meaning
of its own.  It is there so that connections can be listed and scanned in one
order, whatever the order in which they came into being.
-/

namespace ReliableDatagram

namespace Address

/-- The eight 16-bit groups of a host of version 6, the highest first. -/
structure Groups where
  toList : List UInt16
  length_toList : toList.length = 8
deriving DecidableEq

namespace Groups

/-- Zeros between a head and a tail, as many as are missing. -/
def spread (head tail : List UInt16) (room : head.length + tail.length ≤ 8) : Groups :=
  ⟨head ++ List.replicate (8 - (head.length + tail.length)) 0 ++ tail, by
    simp only [List.length_append, List.length_replicate]
    omega⟩

end Groups

inductive Host where
  | v4 (a b c d : UInt8)
  /-- A zone other than zero tells apart equal groups on different links. -/
  | v6 (groups : Groups) (zone : UInt32)
deriving DecidableEq

end Address

/-- Where an end point is reached. -/
structure Address where
  host : Address.Host
  port : UInt16
deriving DecidableEq

/-- The own host, with the port left open. -/
def Address.loopback : Address := ⟨.v4 127 0 0 1, 0⟩

end ReliableDatagram
