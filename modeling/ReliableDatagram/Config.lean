/-
Settings of connections and end points, and the checks they have to pass.

Checks are made in one order, and the first that fails is reported with the value
that it found.  The settings of a connection are checked when an end point is
made and once more when an engine is.  Window and threshold have to fit into a
packed field, the first window lies between one packet and the peer's window, and
the table of packets in flight has a power of two of slots and more than two for
each packet that the window allows.

A connection built from settings that pass can run with every window, table and
timeout in range.  There are sizes that pass and can not be had, though: no check
sets an upper bound to the table or to the buffers, so whether an engine can be
made is a question of its own, which is answered by a fault.
-/
import ReliableDatagram.Address.Basic
import ReliableDatagram.Congestion.Window
import ReliableDatagram.Congestion.RoundTrip
import ReliableDatagram.Packet.Basic
import ReliableDatagram.PowerOfTwo

namespace ReliableDatagram

/-- Settings of one connection. -/
structure Reliability where
  /-- The greatest number of packets in flight, whatever congestion control allows. -/
  windowSize : UInt32 := 64
  initialWindow : UInt32 := 1
  initialThreshold : UInt32 := 32
  initialRoundTrip : Duration := .ofMillis 100
  initialTimeout : Duration := .ofSecs 1
  minTimeout : Duration := .ofMillis 100
  maxTimeout : Duration := .ofSecs 5
  /-- The greatest number of packets held back behind a gap. -/
  receiveCapacity : Nat := 1000
  /-- Slots for packets in flight, found by sequence number modulo this size. -/
  tableSize : Nat := 16384
  avoidance : Avoidance := .fractional
  /-- The number expected first if no SYN sets another. -/
  initialReceive : SeqNum := .first
deriving DecidableEq

inductive EngineKind where
  | locked
  | lockFree
deriving DecidableEq

structure EndPointConfig where
  selfAddress : Address := .loopback
  /-- Time between two scans for packets to send again. -/
  scanInterval : Duration := .ofMillis 1
  /-- Time between two reports. -/
  statsInterval : Duration := .ofSecs 10
  /-- Room for one received datagram. -/
  receiveLength : Nat := 65536
  engineKind : EngineKind := .locked
  reliability : Reliability := {}
deriving DecidableEq

/-- Why settings are refused. -/
inductive ConfigError where
  | zeroScanInterval
  | zeroStatsInterval
  | receiveLengthTooSmall (length : Nat)
  | zeroWindow
  | windowTooLarge (window : UInt32)
  | initialWindowOutOfRange (initial window : UInt32)
  | thresholdTooLarge (threshold : UInt32)
  | tableNotPowerOfTwo (size : Nat)
  | tableTooSmall (size : Nat) (window : UInt32)
  | timeoutsReversed (lower upper : Duration)
  | zeroReceiveCapacity
deriving DecidableEq

/-- The greatest window and threshold, as far as a packed field reaches. -/
def maxWindow : UInt32 := 2097151

namespace ConfigError

def message : ConfigError → String
  | zeroScanInterval => "scan interval must not be zero"
  | zeroStatsInterval => "stats interval must not be zero"
  | receiveLengthTooSmall length =>
    s!"receive buffer length {length} is too small for a maximum size packet"
  | zeroWindow => "window size must be at least 1"
  | windowTooLarge window => s!"window size {window} exceeds the maximum of {maxWindow}"
  | initialWindowOutOfRange initial window =>
    s!"initial congestion window {initial} must be between 1 and the window size {window}"
  | thresholdTooLarge threshold =>
    s!"initial slow start threshold {threshold} exceeds the maximum of {maxWindow}"
  | tableNotPowerOfTwo size => s!"unacked table size {size} is not a power of two"
  | tableTooSmall size window =>
    s!"unacked table size {size} must be more than twice the window size {window}"
  | timeoutsReversed lower upper =>
    s!"min retransmission timeout {lower} is bigger than max retransmission timeout {upper}"
  | zeroReceiveCapacity => "receive buffer capacity must be at least 1"

end ConfigError

namespace Reliability

/-- The first check that fails. -/
def defect? (c : Reliability) : Option ConfigError :=
  if c.windowSize = 0 then some .zeroWindow
  else if maxWindow < c.windowSize then some (.windowTooLarge c.windowSize)
  else if c.initialWindow = 0 ∨ c.windowSize < c.initialWindow then
    some (.initialWindowOutOfRange c.initialWindow c.windowSize)
  else if maxWindow < c.initialThreshold then some (.thresholdTooLarge c.initialThreshold)
  else if ¬ isPowerOfTwo c.tableSize then some (.tableNotPowerOfTwo c.tableSize)
  else if c.tableSize ≤ 2 * c.windowSize.toNat then
    some (.tableTooSmall c.tableSize c.windowSize)
  else if c.maxTimeout.nanos < c.minTimeout.nanos then
    some (.timeoutsReversed c.minTimeout c.maxTimeout)
  else if c.receiveCapacity = 0 then some .zeroReceiveCapacity
  else none

/-- Settings that pass every check. -/
def Valid (c : Reliability) : Prop := c.defect? = none

instance (c : Reliability) : Decidable c.Valid := inferInstanceAs (Decidable (_ = _))

def firstWindow (c : Reliability) : CongestionWindow :=
  .new c.initialWindow c.initialThreshold

def firstRoundTrip (c : Reliability) : RoundTrip :=
  .new c.initialRoundTrip c.initialTimeout

end Reliability

namespace EndPointConfig

/-- The first check that fails. -/
def defect? (c : EndPointConfig) : Option ConfigError :=
  if c.scanInterval.nanos = 0 then some .zeroScanInterval
  else if c.statsInterval.nanos = 0 then some .zeroStatsInterval
  else if c.receiveLength < maxPacketSize then some (.receiveLengthTooSmall c.receiveLength)
  else c.reliability.defect?

/-- Settings that pass every check. -/
def Valid (c : EndPointConfig) : Prop := c.defect? = none

instance (c : EndPointConfig) : Decidable c.Valid := inferInstanceAs (Decidable (_ = _))

end EndPointConfig

end ReliableDatagram
