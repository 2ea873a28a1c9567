/-
Faults: broken preconditions.

A fault is no answer of the protocol.  It says that a table, queue or window
was set up or driven outside the range it is made for; whoever asked gets the
fault in place of a result.

The program stops the thread that meets one.  Here a fault is a value, and a
function that may meet one says so in its type; what stops with it is said where
threads are modelled, by the loops of a node.  The texts are the ones that the
stopped thread reports.
-/

namespace ReliableDatagram

/-- A precondition that the caller did not keep. -/
inductive Fault where
  /-- A tracker needs a power of two of slots. -/
  | trackerSize (slots : Nat)
  /-- A tracker's slots are numbered by 32-bit words. -/
  | trackerRange
  /-- A slot table needs a power of two of slots. -/
  | tableSize (slots : Nat)
  /-- A queue's capacity is a power of two, and at least two. -/
  | queueCapacity (capacity : Nat)
  /-- No power of two within 64 bits is as great as a capacity asks for. -/
  | wordOverflow
  /-- A table or ring takes more bytes than one allocation may have. -/
  | allocationTooLarge
  /-- A span of time counts its seconds in 64 bits. -/
  | spanOverflow
  /-- A window without a single packet cannot be divided by. -/
  | divisionByZero
deriving DecidableEq

def Fault.message : Fault → String
  | trackerSize slots => s!"number of slots must be a power of two: {slots}"
  | trackerRange => "this is a bug: application logic should have ensured the value range"
  | tableSize slots => s!"slot table size must be a power of two: {slots}"
  | queueCapacity capacity =>
    s!"queue capacity must be a power of two and at least 2: {capacity}"
  | wordOverflow => "attempt to add with overflow"
  | allocationTooLarge => "capacity overflow"
  | spanOverflow => "overflow in Duration::new"
  | divisionByZero => "attempt to divide by zero"

end ReliableDatagram
