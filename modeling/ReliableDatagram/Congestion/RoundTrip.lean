/-
The round trip estimate and the timeout that follows from it.

The estimate is a weighted mean of whole microseconds: seven parts the old
estimate, one part the new sample, rounded down.  The timeout is four times
the estimate, kept within bounds.  Both fit into one 64-bit word.

The mean is taken in 64 bits, where seven times a 32-bit word and another word
have room, and it lies between its operands; so it is a 32-bit word again and
nothing is cut off on the way back.  Rounding goes down every time.  From above an
estimate meets a steady sample, from below it may stop up to seven microseconds
short of it.
-/
import ReliableDatagram.Duration

namespace ReliableDatagram

/-- Smoothed round trip time and retransmission timeout, in microseconds. -/
structure RoundTrip where
  smoothedMicros : UInt32
  timeoutMicros : UInt32
deriving DecidableEq

namespace RoundTrip

def new (smoothed timeout : Duration) : RoundTrip := ⟨smoothed.micros, timeout.micros⟩

def smoothed (r : RoundTrip) : Duration := .ofMicros r.smoothedMicros

def timeout (r : RoundTrip) : Duration := .ofMicros r.timeoutMicros

/-- Seven eighths of the old estimate and one eighth of the sample. -/
def mean (old sample : Nat) : Nat := (7 * old + sample) / 8

/-- The estimate after one more sample.  Where the bounds contradict each
other the upper one holds. -/
def onSample (r : RoundTrip) (sample lower upper : Duration) : RoundTrip :=
  let smoothed := mean r.smoothedMicros.toNat sample.micros.toNat
  { smoothedMicros := UInt32.ofNat smoothed
    timeoutMicros := UInt32.ofNat (min (max (4 * smoothed) lower.micros.toNat) upper.micros.toNat) }

/-- Both numbers side by side, the estimate in the low half. -/
def toBits (r : RoundTrip) : UInt64 :=
  UInt64.ofNat (r.smoothedMicros.toNat + r.timeoutMicros.toNat * 0x100000000)

def ofBits (bits : UInt64) : RoundTrip where
  smoothedMicros := UInt32.ofNat (bits.toNat % 0x100000000)
  timeoutMicros := UInt32.ofNat (bits.toNat / 0x100000000)

/-- Packing an estimate loses nothing. -/
@[simp] theorem ofBits_toBits (r : RoundTrip) : ofBits r.toBits = r := by
  have hs := r.smoothedMicros.toNat_lt
  have ht := r.timeoutMicros.toNat_lt
  have hb : r.toBits.toNat = r.smoothedMicros.toNat + r.timeoutMicros.toNat * 0x100000000 := by
    simp only [toBits, UInt64.toNat_ofNat']
    omega
  have h1 : r.toBits.toNat % 0x100000000 = r.smoothedMicros.toNat := by omega
  have h2 : r.toBits.toNat / 0x100000000 = r.timeoutMicros.toNat := by omega
  simp only [ofBits, h1, h2, UInt32.ofNat_toNat]

theorem mean_le {old sample bound : Nat} (ho : old ≤ bound) (hs : sample ≤ bound) :
    mean old sample ≤ bound := by
  unfold mean
  omega

end RoundTrip

end ReliableDatagram
