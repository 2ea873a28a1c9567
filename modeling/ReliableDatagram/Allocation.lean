/-
The bounds of one allocation.

Tables, rings and buffers are each one run of bytes, and no run takes more
than half of the addresses that 64 bits can tell apart.  What a table does is
defined without that bound; only whoever sets one up asks whether it can be
had at all.

So the constructors come in two forms.  One makes the table and looks at nothing
but its shape; the other one asks for the memory first and meets a fault if there
is none.  Results about what a table does go by the first form, and an engine that
a connection starts with by the second.
-/
import ReliableDatagram.Fault

namespace ReliableDatagram.Allocation

/-- The most bytes of one allocation. -/
def limit : Nat := 0x7fffffffffffffff

/-- The bytes that one cell of a table or ring is taken to have.  How many it has
depends on the table and on the layout of its entries.  The figure is only there to
tell sizes that no memory holds from those that some could; near the border
neither answer means anything. -/
def cellSize : Nat := 64

/-- Whether a run of so many bytes can be had. -/
def fits (bytes : Nat) : Bool := bytes ≤ limit

/-- Asks for a table of so many cells. -/
def request (cells : Nat) : Except Fault Unit :=
  if fits (cells * cellSize) then .ok () else .error .allocationTooLarge

end ReliableDatagram.Allocation
