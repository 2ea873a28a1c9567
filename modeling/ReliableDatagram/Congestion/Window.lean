/-
The congestion window: how many packets may be on their way at once.

Below its threshold a window grows by one packet per acknowledgement (slow
start); from there on it grows by one packet per window's worth of
acknowledgements, or hardly at all, by the mode of avoidance.  A loss halves
it and makes the half the new threshold.  Three fields of 21 bits each hold a
window in one 64-bit word.

In the fractional mode the third field counts acknowledgements towards the next
packet.  In the integer mode an acknowledgement adds one part in as many as the
window has packets, as a whole quotient; that is one for a window of one packet
and nothing for any greater one.  A window without packets cannot be divided by,
and that is the one fault here.

Nothing here asks whether the numbers stay in range.  They do for settings that
pass their checks, and what becomes of any other word is part of the theory.
-/
import ReliableDatagram.Fault

namespace ReliableDatagram

/-- How a window grows at or above its threshold. -/
inductive Avoidance where
  /-- One packet more for every window's worth of acknowledgements. -/
  | fractional
  /-- The whole part of one divided by the window: growth from one to two only. -/
  | integerDivision
deriving DecidableEq

structure CongestionWindow where
  /-- Packets that may be in flight. -/
  size : UInt32
  /-- Slow start ends here. -/
  threshold : UInt32
  /-- Acknowledgements counted towards the next step of fractional growth. -/
  credit : UInt32
deriving DecidableEq

namespace CongestionWindow

def new (size threshold : UInt32) : CongestionWindow := ⟨size, threshold, 0⟩

def inSlowStart (w : CongestionWindow) : Bool := w.size < w.threshold

/-- The packets in flight that congestion control and the peer's window allow. -/
def effective (w : CongestionWindow) (windowSize : UInt32) : UInt32 := min w.size windowSize

/-- How many more packets may be sent with `inFlight` on their way. -/
def budget (w : CongestionWindow) (windowSize : UInt32) (inFlight : Nat) : Nat :=
  (w.effective windowSize).toNat - inFlight

/-- Growth in slow start. -/
def enlarged (w : CongestionWindow) : CongestionWindow := { w with size := w.size + 1 }

/-- One acknowledgement counted; a full count buys one more packet. -/
def credited (w : CongestionWindow) : CongestionWindow :=
  let credit := w.credit + 1
  if w.size ≤ credit then { w with size := w.size + 1, credit := credit - w.size }
  else { w with credit }

/-- Growth at or above the threshold. -/
def avoided (w : CongestionWindow) : Avoidance → Except Fault CongestionWindow
  | .fractional => .ok w.credited
  | .integerDivision =>
    if w.size = 0 then .error .divisionByZero
    else .ok { w with size := w.size + 1 / w.size }

/-- A window no greater than `windowSize`. -/
def capped (w : CongestionWindow) (windowSize : UInt32) : CongestionWindow :=
  { w with size := w.effective windowSize }

/-- The window after one acknowledgement.  At the peer's window there is
nothing left to grow for. -/
def onAck (w : CongestionWindow) (windowSize : UInt32) (mode : Avoidance) :
    Except Fault CongestionWindow :=
  if windowSize ≤ w.size then .ok w
  else if w.inSlowStart then .ok (w.enlarged.capped windowSize)
  else (w.avoided mode).map (·.capped windowSize)

/-- The window after a loss: half of it, at least one packet. -/
def onLoss (w : CongestionWindow) : CongestionWindow :=
  let half := max 1 (w.size / 2)
  ⟨half, half, 0⟩

/-- The values a packed field can hold. -/
def fieldRange : Nat := 0x200000

/-- The three fields side by side, size lowest, each cut to its 21 bits. -/
def toBits (w : CongestionWindow) : UInt64 :=
  UInt64.ofNat (w.size.toNat % fieldRange +
    fieldRange * (w.threshold.toNat % fieldRange +
      fieldRange * (w.credit.toNat % fieldRange)))

/-- The window that a word holds; its top bit has no meaning. -/
def ofBits (bits : UInt64) : CongestionWindow where
  size := UInt32.ofNat (bits.toNat % fieldRange)
  threshold := UInt32.ofNat (bits.toNat / fieldRange % fieldRange)
  credit := UInt32.ofNat (bits.toNat / fieldRange / fieldRange % fieldRange)

def text (w : CongestionWindow) : String :=
  "CongestionWindow \x7b cwnd: " ++ toString w.size.toNat ++ ", ssthresh: " ++
    toString w.threshold.toNat ++ ", cwnd_cnt: " ++ toString w.credit.toNat ++ " \x7d"

theorem onAck_of_le {w : CongestionWindow} {windowSize : UInt32} (h : windowSize ≤ w.size)
    (mode : Avoidance) : w.onAck windowSize mode = .ok w := by
  simp [onAck, h]

end CongestionWindow

end ReliableDatagram
