/-
Texts of addresses.

Every address has one text, so equal addresses are shown alike: numbers stand
without leading zeros, letters are small, and of several zero groups in a row
the longest run, the first of them if there are more, shrinks to two colons.  A
lone zero group stays.

Groups that carry a host of version 4 show its four bytes, and a host of groups
stands in brackets, since it holds colons itself.  What is written here is read
back by the readers of addresses; they accept more than is written.
-/
import ReliableDatagram.Address.Basic

namespace ReliableDatagram

namespace Address

/-- Four bytes in decimal, between points. -/
def dottedText (bytes : List UInt8) : String :=
  ".".intercalate (bytes.map fun b => toString b.toNat)

namespace Groups

/-- Groups in hexadecimal, between colons. -/
def join (groups : List UInt16) : String :=
  ":".intercalate (groups.map fun g => String.ofList (Nat.toDigits 16 g.toNat))

def leadingZeros (groups : List UInt16) : Nat := (groups.takeWhile (· == 0)).length

/-- Start and length of the longest run of zeros, the first of equally long ones. -/
def longestZeros (groups : List UInt16) : Nat × Nat :=
  (List.range groups.length).foldl (fun best start =>
    let length := leadingZeros (groups.drop start)
    if best.2 < length then (start, length) else best) (0, 0)

/-- Groups with the longest run of zeros cut out; a lone zero stays. -/
def shortText (groups : List UInt16) : String :=
  let (start, length) := longestZeros groups
  if 1 < length then join (groups.take start) ++ "::" ++ join (groups.drop (start + length))
  else join groups

def bytes (group : UInt16) : List UInt8 := [(group >>> 8).toUInt8, group.toUInt8]

/-- Groups that carry a host of version 4 show its bytes. -/
def text (g : Groups) : String :=
  match g.toList with
  | [0, 0, 0, 0, 0, 0xffff, high, low] => "::ffff:" ++ dottedText (bytes high ++ bytes low)
  | groups => shortText groups

end Groups

/-- The zone behind a percent sign; zone zero is not shown. -/
def zoneText (zone : UInt32) : String := if zone = 0 then "" else "%" ++ toString zone.toNat

/-- A host as it stands before a port: groups need brackets, as they hold colons. -/
def Host.text : Host → String
  | v4 a b c d => dottedText [a, b, c, d]
  | v6 groups zone => "[" ++ groups.text ++ zoneText zone ++ "]"

def text (a : Address) : String := a.host.text ++ ":" ++ toString a.port.toNat

instance : ToString Address := ⟨text⟩

/-- Addresses are listed by their texts. -/
instance : LT Address := ⟨fun a b => a.text < b.text⟩

instance : DecidableLT Address := fun a b => inferInstanceAs (Decidable (a.text < b.text))

end Address

end ReliableDatagram
