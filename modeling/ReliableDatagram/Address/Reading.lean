/-
Reading addresses.

A reader takes what it knows off the front of a text and answers what it read
with the rest, or refuses.  Every address can be written in many ways: with
leading zeros, capital letters, any run of zero groups left out, or the last
two groups as four bytes.

What a reader takes is settled without looking back.  Digits are read as far as
they go and judged afterwards, so a number with a digit too many is refused and not
read in part.  A row of groups prefers four bytes to one group wherever both could
begin, and two colons fill up with zeros whatever the rows on both sides leave
over.  The row in front of them must leave room for at least one group and must
not end in four bytes, which stand only at the very end.

A text is an address only if nothing is left of it.
-/
import ReliableDatagram.Address.Basic

namespace ReliableDatagram.Address

/-- Takes a value off the front of a text. -/
abbrev Reader (α : Type) := List Char → Option (α × List Char)

/-! ## Numbers -/

/-- How numbers of one kind are written. -/
structure Numeral where
  radix : Nat
  /-- The most digits, if they are limited. -/
  width : Option Nat
  /-- Whether zeros may stand in front. -/
  padded : Bool
  /-- All values are below it. -/
  bound : Nat

namespace Numeral

def byte : Numeral := ⟨10, some 3, false, 0x100⟩

def group : Numeral := ⟨16, some 4, true, 0x10000⟩

def port : Numeral := ⟨10, none, true, 0x10000⟩

def zone : Numeral := ⟨10, none, true, 0x100000000⟩

/-- The value of a decimal or hexadecimal digit. -/
def digit? (c : Char) : Option Nat :=
  if '0' ≤ c ∧ c ≤ '9' then some (c.toNat - '0'.toNat)
  else if 'a' ≤ c ∧ c ≤ 'f' then some (c.toNat - 'a'.toNat + 10)
  else if 'A' ≤ c ∧ c ≤ 'F' then some (c.toNat - 'A'.toNat + 10)
  else none

def digits (radix : Nat) : List Char → List Nat × List Char
  | [] => ([], [])
  | c :: rest =>
    match (digit? c).filter (· < radix) with
    | none => ([], c :: rest)
    | some d =>
      let (more, rest) := digits radix rest
      (d :: more, rest)

/-- Whether digits have the form that numbers of this kind take. -/
def wellFormed (n : Numeral) (ds : List Nat) : Bool :=
  ! ds.isEmpty && (n.width.all fun most => ds.length ≤ most) &&
    (n.padded || ds.length == 1 || ds.head? != some 0)

/-- Reads all digits at the front as one number. -/
def read (n : Numeral) : Reader Nat := fun input =>
  let (ds, rest) := digits n.radix input
  let value := ds.foldl (fun v d => v * n.radix + d) 0
  if n.wellFormed ds && value < n.bound then some (value, rest) else none

end Numeral

/-! ## Hosts -/

/-- Reads what follows a character. -/
def after {α : Type} (c : Char) (read : Reader α) : Reader α
  | [] => none
  | d :: rest => if d = c then read rest else none

/-- Reads a list's next item: the first stands alone, the others behind a separator. -/
def item {α : Type} (separator : Char) (first : Bool) (read : Reader α) : Reader α :=
  if first then read else after separator read

/-- Reads bytes between points. -/
def readBytes : (count : Nat) → (first : Bool) → Reader (List UInt8)
  | 0, _, input => some ([], input)
  | count + 1, first, input => do
    let (b, rest) ← item '.' first Numeral.byte.read input
    let (bs, rest) ← readBytes count false rest
    return (UInt8.ofNat b :: bs, rest)

def readV4 : Reader (UInt8 × UInt8 × UInt8 × UInt8) := fun input =>
  match readBytes 4 true input with
  | some ([a, b, c, d], rest) => some ((a, b, c, d), rest)
  | _ => none

/-- Two bytes as one group. -/
def joinBytes (high low : UInt8) : UInt16 := (high.toUInt16 <<< 8) ||| low.toUInt16

/-- A row of groups and whether it ends in four bytes. -/
structure Row where
  groups : List UInt16
  dotted : Bool

/-- Reads groups between colons, as many as stand there and have room.  Where
two have room, four bytes may end the row in their place. -/
def readRow : (room : Nat) → (first : Bool) → List Char → Row × List Char
  | 0, _, input => (⟨[], false⟩, input)
  | room + 1, first, input =>
    match if room = 0 then none else item ':' first readV4 input with
    | some ((a, b, c, d), rest) => (⟨[joinBytes a b, joinBytes c d], true⟩, rest)
    | none =>
      match item ':' first Numeral.group.read input with
      | none => (⟨[], false⟩, input)
      | some (g, rest) =>
        let (row, rest) := readRow room false rest
        (⟨UInt16.ofNat g :: row.groups, row.dotted⟩, rest)

theorem length_readRow_le (room : Nat) (first : Bool) (input : List Char) :
    (readRow room first input).1.groups.length ≤ room := by
  induction room generalizing first input with
  | zero => simp [readRow]
  | succ room ih =>
    unfold readRow
    split
    · rename_i h
      have : room ≠ 0 := fun h0 => by simp [h0] at h
      simp only [List.length_cons, List.length_nil]
      omega
    · split
      · simp
      · rename_i g rest _
        have := ih false rest
        simpa using this

/-- Reads eight groups, or fewer with two colons in place of one zero or more.
Four bytes stand only at the very end. -/
def readGroups : Reader Groups := fun input =>
  let head := readRow 8 true input
  have headRoom : head.1.groups.length ≤ 8 := length_readRow_le 8 true input
  if head.1.groups.length = 8 then
    some (.spread head.1.groups [] (by simpa using headRoom), head.2)
  else if head.1.dotted then none
  else
    match head.2 with
    | ':' :: ':' :: rest =>
      let tail := readRow (7 - head.1.groups.length) true rest
      have tailRoom : tail.1.groups.length ≤ 7 - head.1.groups.length :=
        length_readRow_le (7 - head.1.groups.length) true rest
      some (.spread head.1.groups tail.1.groups (by omega), tail.2)
    | _ => none

/-- Reads a zone behind a percent sign; without the sign it is zero. -/
def readZone : Reader Nat
  | '%' :: rest => Numeral.zone.read rest
  | input => some (0, input)

/-- Reads a host as it stands before a port. -/
def readHost : Reader Host
  | '[' :: input => do
    let (groups, rest) ← readGroups input
    let (zone, rest) ← readZone rest
    after ']' (fun rest => some (.v6 groups (UInt32.ofNat zone), rest)) rest
  | input => do
    let ((a, b, c, d), rest) ← readV4 input
    return (.v4 a b c d, rest)

/-- The address that a text writes, if it writes one and nothing else. -/
def ofText? (text : String) : Option Address := do
  let (host, rest) ← readHost text.toList
  let (port, rest) ← after ':' Numeral.port.read rest
  if rest.isEmpty then some ⟨host, UInt16.ofNat port⟩ else none

end ReliableDatagram.Address
