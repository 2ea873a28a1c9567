/-
Texts of packets for reports.

A report shows the kind by name and of the flags those that have a meaning, in a
fixed order that is not the order of their bits.  Flags without a meaning are kept
in the packet and not shown.
-/
import ReliableDatagram.Packet.Basic

namespace ReliableDatagram

namespace Flags

/-- The flags that have a meaning, in the order in which reports list them. -/
def named : List (Flags × String) := [(syn, "SYN"), (ack, "ACK"), (fin, "FIN"), (rst, "RST")]

/-- The names of the set flags that have a meaning. -/
def names (f : Flags) : List String :=
  (named.filter (fun entry => f.contains entry.1)).map (·.2)

/-- The names in brackets behind a blank; nothing if no named flag is set. -/
def text (f : Flags) : String :=
  if f.names.isEmpty then "" else " [" ++ ",".intercalate f.names ++ "]"

end Flags

namespace Packet

/-- One line about a packet: kind, flags, numbers and sizes. -/
def text (p : Packet) : String :=
  p.kind.name ++ p.flags.text ++ " seq=" ++ toString p.seq ++ " ack=" ++ toString p.ack ++
    " len=" ++ toString p.size ++ " payload=" ++ toString p.payload.length

instance : ToString Packet := ⟨text⟩

/-- The line about a packet, marked as such. -/
def markedText (p : Packet) : String := "PCKT\x7b" ++ p.text ++ "\x7d"

end Packet

end ReliableDatagram
