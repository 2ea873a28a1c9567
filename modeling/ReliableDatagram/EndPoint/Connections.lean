/-
The connections of an end point: at most one engine per peer, listed by peer.

The list ascends by the text of the peer's address.  A program that keeps its
connections in a hash table has an order that changes from run to run; here it is
fixed, so that the scan of an end point and its report are functions.  Looking a
peer up does not depend on the order.

The four lemmas at the end are all that is ever asked of this module: what is
found after setting or removing a peer, for that peer and for any other.
-/
import ReliableDatagram.Address.Text
import ReliableDatagram.Assoc
import ReliableDatagram.Engine.Choice

namespace ReliableDatagram

/-- Engines by peer, in ascending order of the peer's text. -/
structure Connections where
  entries : List (Address × Engine)

namespace Connections

def empty : Connections := ⟨[]⟩

def size (c : Connections) : Nat := c.entries.length

def find? (c : Connections) (peer : Address) : Option Engine := c.entries.lookup peer

/-- Sets the engine of a peer, whether it had one or not. -/
def insert (c : Connections) (peer : Address) (engine : Engine) : Connections :=
  ⟨Assoc.insert peer engine c.entries⟩

def erase (c : Connections) (peer : Address) : Connections := ⟨Assoc.erase peer c.entries⟩

theorem find?_insert_self (c : Connections) (peer : Address) (engine : Engine) :
    (c.insert peer engine).find? peer = some engine :=
  Assoc.lookup_insert_self peer engine c.entries

theorem find?_insert_of_ne {c : Connections} {peer other : Address} (h : other ≠ peer)
    (engine : Engine) : (c.insert peer engine).find? other = c.find? other :=
  Assoc.lookup_insert_of_ne h engine c.entries

theorem find?_erase_self (c : Connections) (peer : Address) : (c.erase peer).find? peer = none :=
  Assoc.lookup_erase_self peer c.entries

theorem find?_erase_of_ne {c : Connections} {peer other : Address} (h : other ≠ peer) :
    (c.erase peer).find? other = c.find? other :=
  Assoc.lookup_erase_of_ne h c.entries

end Connections

end ReliableDatagram
