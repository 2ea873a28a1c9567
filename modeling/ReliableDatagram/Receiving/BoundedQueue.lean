/-
A bounded queue in a ring of stamped cells.

Positions count enqueued and dequeued values in 64-bit words that wrap around; a
position belongs to the cell of its remainder.  A cell's stamp tells whose turn it
is: stamp `p` frees the cell for the value at position `p`, stamp `p + 1` says that
this value is in the cell.  Full and empty are read off the stamps alone, by the
sign of their wrapping distance to the position.

One look at a cell settles a call: it stores or takes the value, finds the ring full
or empty, or has to look again because another caller was faster.  With one caller
at a time the last case does not occur, so `push` and `pop` look once.  The rule
about stamps is the whole of the algorithm; head and tail only say where to look.

In a ring of one cell "holds the value at `p`" and "free for the value at `p + 1`"
would be the same stamp; so a ring has two cells at least.
-/
import ReliableDatagram.Allocation
import ReliableDatagram.Fault
import ReliableDatagram.PowerOfTwo

namespace ReliableDatagram

/-- A cell of the ring. -/
structure Cell (α : Type) where
  stamp : UInt64
  value : Option α
deriving DecidableEq

/-- How a stamp stands to the position that it is compared with. -/
inductive Turn where
  /-- The cell is ready for this position. -/
  | ready
  /-- The cell is still in use by the round before. -/
  | early
  /-- The position was served by someone else meanwhile. -/
  | late
deriving DecidableEq

/-- Compares by the wrapping distance: up to half the words ahead is late. -/
def Turn.of (stamp position : UInt64) : Turn :=
  if stamp = position then .ready
  else if (stamp - position).toNat < 0x8000000000000000 then .late
  else .early

@[simp] theorem Turn.of_self (p : UInt64) : Turn.of p p = .ready := if_pos rfl

/-- A first-in first-out queue of at most `cells.size` values. -/
structure BoundedQueue (α : Type) where
  cells : Array (Cell α)
  /-- Where the next value goes. -/
  tail : UInt64
  /-- Where the oldest value is. -/
  head : UInt64
deriving DecidableEq

namespace BoundedQueue

variable {α : Type}

/-- An empty queue; each cell is free for the first round. -/
def new (capacity : Nat) : Except Fault (BoundedQueue α) :=
  if isPowerOfTwo capacity ∧ 2 ≤ capacity then
    .ok ⟨Array.ofFn fun i : Fin capacity => ⟨UInt64.ofNat i, none⟩, 0, 0⟩
  else .error (.queueCapacity capacity)

/-- An empty queue, if it can be had. -/
def allocate (capacity : Nat) : Except Fault (BoundedQueue α) := do
  if isPowerOfTwo capacity ∧ 2 ≤ capacity then Allocation.request capacity
  new capacity

def capacity (q : BoundedQueue α) : Nat := q.cells.size

def indexOf (q : BoundedQueue α) (position : UInt64) : Nat := position.toNat % q.capacity

def cell (q : BoundedQueue α) (position : UInt64) : Cell α :=
  q.cells.getD (q.indexOf position) ⟨0, none⟩

def size (q : BoundedQueue α) : Nat := min (q.tail - q.head).toNat q.capacity

def isEmpty (q : BoundedQueue α) : Bool := q.size == 0

/-- How the cell at the tail stands to a value that is to be stored. -/
def tailTurn (q : BoundedQueue α) : Turn := .of (q.cell q.tail).stamp q.tail

/-- How the cell at the head stands to a caller who wants its value. -/
def headTurn (q : BoundedQueue α) : Turn := .of (q.cell q.head).stamp (q.head + 1)

def headValue (q : BoundedQueue α) : Option α := (q.cell q.head).value

/-- The queue with a value stored at the tail. -/
def store (q : BoundedQueue α) (value : α) : BoundedQueue α :=
  { q with
    cells := q.cells.setIfInBounds (q.indexOf q.tail) ⟨q.tail + 1, some value⟩
    tail := q.tail + 1 }

/-- The queue with the cell at the head set free for the position one round
later. -/
def discard (q : BoundedQueue α) : BoundedQueue α :=
  { q with
    cells := q.cells.setIfInBounds (q.indexOf q.head) ⟨q.head + UInt64.ofNat q.capacity, none⟩
    head := q.head + 1 }

/-- Appends a value, or hands it back if the queue is full.  One look at the
tail settles it, since nobody else takes a position meanwhile. -/
def push (q : BoundedQueue α) (value : α) : Except α Unit × BoundedQueue α :=
  match q.tailTurn with
  | .ready => (.ok (), q.store value)
  | _ => (.error value, q)

/-- Takes the oldest value, if there is one. -/
def pop (q : BoundedQueue α) : Option α × BoundedQueue α :=
  match q.headTurn, q.headValue with
  | .ready, some value => (some value, q.discard)
  | _, _ => (none, q)

def toList (q : BoundedQueue α) : List α :=
  (List.range q.size).filterMap fun i => (q.cell (q.head + UInt64.ofNat i)).value

@[simp] theorem capacity_store (q : BoundedQueue α) (value : α) :
    (q.store value).capacity = q.capacity := by
  simp [store, capacity]

@[simp] theorem capacity_discard (q : BoundedQueue α) : q.discard.capacity = q.capacity := by
  simp [discard, capacity]

end BoundedQueue

end ReliableDatagram
