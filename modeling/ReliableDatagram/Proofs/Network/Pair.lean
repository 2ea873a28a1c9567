/-
Runs of a network of two end points.

The two know each other's address and talk to nobody else.  A run is any
sequence of moves: calls of the two applications, scans at any time, time
that goes by with or without the scans that fall due, and what the network does
to a datagram.  It loses datagrams, doubles them, delivers them in any order,
and may damage one on delivery by cutting it short or by exchanging one byte.

Beside the network a run keeps a log of what could be observed: each move with
its answer and its events.

The log is what properties are stated in.  What an application sent, what it was
handed and which bytes went out are read off it, and so is whether a side has
started its connection anew.  Whether a datagram does that depends on its bytes
and its damage, so `restarts` decodes what arrives in the way an end point would.

`Run` takes the moves that are allowed as a parameter, with network and log before
the move.  Without that a property of all runs in which nobody connects, and one
of those in which each side connects before its first payload, would need a
relation each; so the lemmas that do not depend on it are proved once.
Restricting a move by the past is enough for all of them.

For a run on fixed moves there is `playAll`, with a decidable counterpart of what
is allowed.

The settings of both sides are valid, their addresses are different, and each side
expects its first packet under the number that the other one starts with.  The
timer of the scans is any timer.
-/
import ReliableDatagram.Network.Basic
import ReliableDatagram.Proofs.Exchange.Basic

namespace ReliableDatagram

def Side.index : Side → Nat
  | left => 0
  | right => 1

/-- Two end points with checked settings that expect the first number first. -/
structure Pair where
  timer : Timer
  config : Side → EndPointConfig
  valid : ∀ s, (config s).Valid
  first : ∀ s, (config s).reliability.initialReceive = .first
  apart : (config .left).selfAddress ≠ (config .right).selfAddress

/-- Two end points on one host with the default settings. -/
def Pair.neighbours : Pair where
  timer := .punctual
  config
    | .left => { selfAddress := ⟨.v4 127 0 0 1, 1⟩ }
    | .right => { selfAddress := ⟨.v4 127 0 0 1, 2⟩ }
  valid s := by cases s <;> decide
  first s := by cases s <;> rfl
  apart := by decide

/-- What the network does to the bytes of a datagram. -/
inductive Damage where
  | none
  | cut (length : Nat)
  | exchange (position : Nat) (byte : UInt8)
deriving DecidableEq

def Damage.apply : Damage → Bytes → Bytes
  | none, bytes => bytes
  | cut length, bytes => bytes.take length
  | exchange position byte, bytes => bytes.set position byte

/-- One move of a run. -/
inductive Move where
  | connect (side : Side)
  | send (side : Side) (payload : Bytes)
  | scan (side : Side)
  | elapse (span : Nat)
  /-- Time goes by, and each end point scans whenever its timer ticks. -/
  | advance (span : Duration)
  /-- The network loses the datagram at a position of the wire. -/
  | lose (index : Nat)
  /-- It puts a copy of the datagram on the wire. -/
  | double (index : Nat)
  | deliver (index : Nat) (damage : Damage)
deriving DecidableEq

/-- The side that connects. -/
def Move.connects? : Move → Option Side
  | connect s => some s
  | _ => none

/-- The side whose application makes a call. -/
def Move.calls? : Move → Option Side
  | connect s => some s
  | send s _ => some s
  | _ => none

def Move.damage : Move → Damage
  | deliver _ damage => damage
  | _ => .none

/-- A move with what came of it. -/
structure Happening where
  move : Move
  answer : Answer
  events : List Event
deriving DecidableEq

/-- The moves of a run in order. -/
abbrev Log := List Happening

namespace Pair

def address (S : Pair) (s : Side) : Address := (S.config s).selfAddress

def endPoint (S : Pair) (s : Side) : EndPoint := ⟨S.config s, .empty, {}⟩

theorem endPoint_new (S : Pair) (s : Side) : EndPoint.new (S.config s) = .ok (S.endPoint s) := by
  have := S.valid s
  rw [EndPointConfig.Valid] at this
  rw [EndPoint.new, this]
  rfl

def start (S : Pair) : Network :=
  .new S.timer [.start (S.endPoint .left) true, .start (S.endPoint .right) true]

/-- A packet of one side as a datagram to the other. -/
def datagram (S : Pair) (m : Side × Packet) : Datagram :=
  ⟨S.address m.1, S.address m.1.other, m.2.encode⟩

def play (S : Pair) (net : Network) : Move → Answer × Network × List Event
  | .connect s => net.act s.index (.connect (S.address s.other))
  | .send s payload => net.act s.index (.send (S.address s.other) payload)
  | .scan s => net.act s.index .scan
  | .elapse span => (.done, { net with now := net.now + span }, [])
  | .advance span => (.done, net.advance span)
  | .lose i => (.done, { net with wire := net.wire.eraseIdx i }, [])
  | .double i => (.done, { net with wire := net.wire ++ net.wire[i]?.toList }, [])
  | .deliver i damage =>
    match net.wire[i]? with
    | none => (.done, net, [])
    | some d =>
      (.done, { net with wire := net.wire.eraseIdx i }.handOver
        { d with bytes := damage.apply d.bytes })

def record (S : Pair) (net : Network) (log : Log) (m : Move) : Log :=
  log ++ [⟨m, (S.play net m).1, (S.play net m).2.2⟩]

/-- Whether a packet starts a connection anew. -/
def startsAnew : Except DecodeError Packet → Bool
  | .ok p => p.isKind .syn && !p.hasFlag .ack
  | .error _ => false

/-- Whether a move starts a side's connection anew: by a connect, or by a SYN that arrives. -/
def restarts (S : Pair) (net : Network) : Move → Side → Bool
  | .connect t, s => t == s
  | .deliver i damage, s => (net.wire[i]?).any fun d =>
      d.target == S.address s && startsAnew (Packet.decode (damage.apply d.bytes))
  | _, _ => false

/-! ## Runs -/

/-- The networks that a run leads to, if each move is one of those allowed. -/
inductive Run (S : Pair) (allowed : Network → Log → Move → Prop) : Network → Log → Prop
  | start : Run S allowed S.start []
  | move {net : Network} {log : Log} (m : Move) : Run S allowed net log → allowed net log m →
      Run S allowed (S.play net m).2.1 (S.record net log m)

/-- Carries out moves one after the other and logs them. -/
def playAll (S : Pair) (net : Network) (log : Log) : List Move → Network × Log
  | [] => (net, log)
  | m :: rest =>
    S.playAll (S.play net m).2.1 (S.record net log m) rest

/-- Whether each of some moves is allowed when its turn comes. -/
def Allows (S : Pair) (allowed : Network → Log → Move → Prop) (net : Network) (log : Log) :
    List Move → Prop
  | [] => True
  | m :: rest =>
    allowed net log m ∧ S.Allows allowed (S.play net m).2.1 (S.record net log m) rest

instance Allows.decidable (S : Pair) (allowed : Network → Log → Move → Prop)
    [∀ net log m, Decidable (allowed net log m)] :
    ∀ (moves : List Move) (net : Network) (log : Log), Decidable (S.Allows allowed net log moves)
  | [], _, _ => .isTrue trivial
  | m :: rest, net, log =>
    @instDecidableAnd _ _ inferInstance
      (Allows.decidable S allowed rest (S.play net m).2.1 (S.record net log m))

theorem Run.playAll {S : Pair} {allowed : Network → Log → Move → Prop} (moves : List Move) :
    ∀ {net : Network} {log : Log}, S.Run allowed net log → S.Allows allowed net log moves →
      S.Run allowed (S.playAll net log moves).1 (S.playAll net log moves).2 := by
  induction moves with
  | nil => exact fun run _ => run
  | cons m rest ih =>
      intro net log run h
      exact ih (.move m run h.1) h.2

end Pair

/-! ## Reading a log -/

/-- The payload that a side sends with success, and its number. -/
def Happening.accepted? (h : Happening) (s : Side) : Option (SeqNum × Bytes) :=
  match h.move, h.answer with
  | .send t payload, .numbered seq => if t = s then some (seq, payload) else none
  | _, _ => none

/-- The payload that a side's application gets. -/
def Event.payload? (s : Side) : Event → Option Bytes
  | .got i _ payload => if i = s.index then some payload else none
  | .sent _ _ _ => none

/-- The bytes of a datagram that a side sends. -/
def Event.bytes? (s : Side) : Event → Option Bytes
  | .sent i _ bytes => if i = s.index then some bytes else none
  | .got _ _ _ => none

namespace Log

/-- What a side sent with success, in order. -/
def accepted (log : Log) (s : Side) : List Bytes :=
  (log.filterMap (·.accepted? s)).map (·.2)

/-- The numbers that went with it. -/
def numbers (log : Log) (s : Side) : List SeqNum :=
  (log.filterMap (·.accepted? s)).map (·.1)

/-- What a side's application got, in order. -/
def dispatched (log : Log) (s : Side) : List Bytes :=
  (log.flatMap (·.events)).filterMap (Event.payload? s)

/-- The datagrams that a side put on the wire, in order. -/
def transmitted (log : Log) (s : Side) : List Bytes :=
  (log.flatMap (·.events)).filterMap (Event.bytes? s)

end Log

/-! ## Reading a network -/

namespace Network

def engine? (net : Network) (i : Nat) (peer : Address) : Option Engine :=
  net.nodes[i]?.bind (·.endPoint.connections.find? peer)

end Network

namespace Pair

/-- Whether a side still tracks a number. -/
def tracks (S : Pair) (net : Network) (s : Side) (seq : SeqNum) : Bool :=
  (net.engine? s.index (S.address s.other)).any (·.isUnacked seq)

/-- Whether a side holds a number back. -/
def holds (S : Pair) (net : Network) (s : Side) (seq : SeqNum) : Bool :=
  (net.engine? s.index (S.address s.other)).any fun e => (e.ordering.find? seq).isSome

def unackedCount (S : Pair) (net : Network) (s : Side) : Nat :=
  ((net.engine? s.index (S.address s.other)).map (·.stats.unacked)).getD 0

end Pair

end ReliableDatagram
