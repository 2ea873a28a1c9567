/-
Operations that may have to wait for another party.

A caller that finds an entry checked out, or a flag taken, can do nothing but try
again.  Here it is told so: waiting is an outcome, and whoever waits has changed
nothing.  So every operation is a function that ends, and the question who gets
its turn when is left to whoever makes the calls.
-/

namespace ReliableDatagram

/-- The outcome of an operation that may have to wait. -/
inductive Attempt (α : Type) where
  | waits
  | done (result : α)
deriving DecidableEq

namespace Attempt

variable {α β : Type}

/-- The result, or a substitute for an operation that would wait. -/
def getD : Attempt α → α → α
  | waits, substitute => substitute
  | done result, _ => result

def map (f : α → β) : Attempt α → Attempt β
  | waits => waits
  | done result => done (f result)

end Attempt

end ReliableDatagram
