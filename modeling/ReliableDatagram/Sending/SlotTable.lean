/-
A table of slots whose entries can be checked out.

A key belongs to the slot of its remainder, and a slot holds one entry at
most.  Whoever checks an entry out owns it through a guard and leaves a mark
in the slot; a marked slot is not vacant, and an operation that needs its
entry has to wait until the guard is checked in or removed.  Waiting is an
outcome here, so every operation is a plain function on tables.

Only occupied slots take room: the table lists them in slot order, and a slot that
is not listed is vacant.  Nothing in the type keeps the list in order or its slots
below the size; that is what calls make of an empty table and keep.

An operation on one slot is built from three: looking at its occupant, occupying it
and vacating it.  A walk over all slots is one step, as it is for a single caller;
walks that stop at a guard and go on later are described in the theory.
-/
import ReliableDatagram.Allocation
import ReliableDatagram.Assoc
import ReliableDatagram.Attempt
import ReliableDatagram.Fault
import ReliableDatagram.PowerOfTwo

namespace ReliableDatagram

/-- What is in a slot that is not vacant. -/
inductive Occupant (α : Type) where
  | entry (value : α)
  /-- The mark of an entry that a guard owns. -/
  | checkedOut
deriving DecidableEq

/-- A table of a fixed number of slots. -/
structure SlotTable (α : Type) where
  size : Nat
  /-- The occupied slots in slot order. -/
  occupied : List (Nat × Occupant α)
deriving DecidableEq

/-- An entry taken out of its slot for exclusive use. -/
structure Guard (α : Type) where
  key : Nat
  value : α
deriving DecidableEq

namespace Occupant

variable {α : Type}

def value? : Occupant α → Option α
  | entry value => some value
  | checkedOut => none

def isCheckedOut : Occupant α → Bool
  | entry _ => false
  | checkedOut => true

/-- The occupant with its entry, if it is one, changed. -/
def map (f : α → α) : Occupant α → Occupant α
  | entry value => entry (f value)
  | checkedOut => checkedOut

end Occupant

namespace SlotTable

variable {α β : Type}

def new (size : Nat) : Except Fault (SlotTable α) :=
  if isPowerOfTwo size then .ok ⟨size, []⟩ else .error (.tableSize size)

/-- A table of vacant slots, if it can be had. -/
def allocate (size : Nat) : Except Fault (SlotTable α) := do
  if isPowerOfTwo size then Allocation.request size
  new size

def slotOf (t : SlotTable α) (key : Nat) : Nat := key % t.size

/-- What is in the slot of a key. -/
def occupant? (t : SlotTable α) (key : Nat) : Option (Occupant α) :=
  t.occupied.lookup (t.slotOf key)

def occupy (t : SlotTable α) (key : Nat) (occupant : Occupant α) : SlotTable α :=
  { t with occupied := Assoc.insert (t.slotOf key) occupant t.occupied }

def vacate (t : SlotTable α) (key : Nat) : SlotTable α :=
  { t with occupied := Assoc.erase (t.slotOf key) t.occupied }

def isVacant (t : SlotTable α) (key : Nat) : Bool := (t.occupant? key).isNone

/-- Puts a value into a vacant slot; otherwise hands the value back. -/
def tryInsert (t : SlotTable α) (key : Nat) (value : α) : Except α (SlotTable α) :=
  if t.isVacant key then .ok (t.occupy key (.entry value)) else .error value

/-- Takes the entry of a key out for good. -/
def take (t : SlotTable α) (key : Nat) : Attempt (Option α × SlotTable α) :=
  match t.occupant? key with
  | none => .done (none, t)
  | some (.entry value) => .done (some value, t.vacate key)
  | some .checkedOut => .waits

/-- Hands the entry of a key over to a guard. -/
def checkOut (t : SlotTable α) (key : Nat) : Attempt (Option (Guard α) × SlotTable α) :=
  match t.occupant? key with
  | none => .done (none, t)
  | some (.entry value) => .done (some ⟨key, value⟩, t.occupy key .checkedOut)
  | some .checkedOut => .waits

/-- Puts a guard's entry, as the guard left it, back into its slot. -/
def checkIn (t : SlotTable α) (g : Guard α) : SlotTable α := t.occupy g.key (.entry g.value)

/-- Drops the mark of a guard whose entry does not come back. -/
def remove (t : SlotTable α) (g : Guard α) : α × SlotTable α := (g.value, t.vacate g.key)

/-- Takes the entry of a key out if `matching` holds for it. -/
def removeIf (t : SlotTable α) (key : Nat) (matching : α → Bool) :
    Attempt (Option α × SlotTable α) :=
  (t.checkOut key).map fun
    | (none, t) => (none, t)
    | (some g, t) =>
      if matching g.value then (some (t.remove g).1, (t.remove g).2) else (none, t.checkIn g)

/-- Applies `f` to the entry of a key, keeps what `f` makes of it and answers
what `f` finds. -/
def withEntry (t : SlotTable α) (key : Nat) (f : α → β × α) :
    Attempt (Option β × SlotTable α) :=
  (t.checkOut key).map fun
    | (none, t) => (none, t)
    | (some g, t) => (some (f g.value).1, t.checkIn { g with value := (f g.value).2 })

def entries (t : SlotTable α) : List α := t.occupied.filterMap fun slot => slot.2.value?

/-- Whether a guard is open on any slot. -/
def anyCheckedOut (t : SlotTable α) : Bool := t.occupied.any fun slot => slot.2.isCheckedOut

/-- Visits every entry in slot order: answers what `f` finds and keeps what
`f` makes of the entries. -/
def visit (t : SlotTable α) (f : α → β × α) : Attempt (List β × SlotTable α) :=
  if t.anyCheckedOut then .waits
  else .done (t.entries.map fun v => (f v).1,
    { t with occupied := t.occupied.map fun slot => (slot.1, slot.2.map fun v => (f v).2) })

end SlotTable

end ReliableDatagram
