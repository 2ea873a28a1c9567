/-
Points and spans of time in nanoseconds.

Estimates keep a span as whole microseconds in one 32-bit word, cut off
below and capped above.  The text of a span takes the greatest unit of which
it holds at least one, with as many decimals as it needs.

A point in time is the number of nanoseconds since the start of a run.  A clock may
be read out of order, and the span between two points is none at all if the second
one lies before the first.  Spans have no bound here except where one is put
together from seconds and a rest: the seconds are one 64-bit word, and a carry
beyond it is a fault.
-/
import ReliableDatagram.Fault

namespace ReliableDatagram

/-- A point in time: nanoseconds since the start of the run. -/
abbrev Instant := Nat

structure Duration where
  nanos : Nat
deriving DecidableEq

namespace Duration

def ofMicros (micros : UInt32) : Duration := ⟨micros.toNat * 1000⟩

def ofMillis (millis : Nat) : Duration := ⟨millis * 1000000⟩

def ofSecs (secs : Nat) : Duration := ⟨secs * 1000000000⟩

/-- A span of seconds and further nanoseconds.  Those that make up whole seconds
count as such, and all seconds together are one 64-bit word. -/
def ofParts (secs nanos : Nat) : Except Fault Duration :=
  if secs + nanos / 1000000000 ≤ 0xffffffffffffffff then
    .ok ⟨secs * 1000000000 + nanos⟩
  else .error .spanOverflow

/-- The span from `since` to `now`; none at all when the clock went back. -/
def between (since now : Instant) : Duration := ⟨now - since⟩

/-- Whole microseconds, capped at the greatest 32-bit word. -/
def micros (d : Duration) : UInt32 := UInt32.ofNat (min (d.nanos / 1000) 0xffffffff)

/-- The decimals of `rest / unit` by long division, at most `places` of them
and none behind the last that is not zero. -/
def decimals (unit : Nat) : (places rest : Nat) → List Char
  | 0, _ => []
  | places + 1, rest =>
    if rest = 0 then []
    else Nat.digitChar (rest * 10 / unit) :: decimals unit places (rest * 10 % unit)

/-- The text of `amount / unit`: whole part, then decimals behind a point if any. -/
def inUnits (unit places amount : Nat) : String :=
  let fraction := decimals unit places (amount % unit)
  toString (amount / unit) ++
    (if fraction.isEmpty then "" else "." ++ String.ofList fraction)

/-- The text of a span, such as 1.5s, 87.5ms, 12µs or 0ns. -/
def text (d : Duration) : String :=
  if 1000000000 ≤ d.nanos then inUnits 1000000000 9 d.nanos ++ "s"
  else if 1000000 ≤ d.nanos then inUnits 1000000 6 d.nanos ++ "ms"
  else if 1000 ≤ d.nanos then inUnits 1000 3 d.nanos ++ "µs"
  else toString d.nanos ++ "ns"

instance : ToString Duration := ⟨text⟩

theorem micros_toNat (d : Duration) :
    d.micros.toNat = min (d.nanos / 1000) 0xffffffff := by
  simp only [micros, UInt32.toNat_ofNat']
  omega

theorem micros_mono {d e : Duration} (h : d.nanos ≤ e.nanos) :
    d.micros.toNat ≤ e.micros.toNat := by
  simp only [micros_toNat]
  omega

end Duration

end ReliableDatagram
