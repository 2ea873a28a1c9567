/-
Two engines and the packets between them.

This is what is left of a network of two end points once addresses, bytes and
counters are taken away: an engine on either side, the packets on their way,
and beside them the payloads that each side took up for sending and handed to
its application.  The wire is a list, but a step can take any packet of it,
drop it or double it.

Steps of the data phase and those that set a connection up are two relations.
A side need not be able to work off every kind of packet; which ones it can is
a parameter of the steps.

The payloads are ghost state: no step looks at them.  They are here because every
property of delivery compares what was taken up with what was handed on, and an
invariant can only speak of the state.  The same holds for the numbers under which
payloads were taken up.

Four helpers make up all states that steps lead to, but for the time and for a
packet that is doubled: `without` takes a packet off the wire, `post` gives a side
its new engine and puts packets on the wire, `taken` records a payload that was
taken up, and `handed` those that were handed on.  An invariant has its lemmas
about the helpers that concern it, and the cases of a step are put together from
them.

Engines are locked ones.  That a connection may run the lock-free kind is dealt
with where a network is related to an exchange.
-/
import Mathlib.Logic.Function.Basic
import Mathlib.Logic.Relation
import ReliableDatagram.Proofs.Engine.Stream

namespace ReliableDatagram

/-- One of the two end points. -/
inductive Side where
  | left
  | right
deriving DecidableEq

namespace Side

def other : Side → Side
  | left => right
  | right => left

@[simp] theorem other_other (s : Side) : s.other.other = s := by
  cases s with
  | left => rfl
  | right => rfl

@[simp] theorem other_ne (s : Side) : s.other ≠ s := by
  cases s with
  | left => exact fun h => nomatch h
  | right => exact fun h => nomatch h

@[simp] theorem ne_other (s : Side) : s ≠ s.other := s.other_ne.symm

theorem eq_or_eq_other (s t : Side) : s = t ∨ s = t.other := by
  cases s with
  | left => cases t with
      | left => exact .inl rfl
      | right => exact .inr rfl
  | right => cases t with
      | left => exact .inr rfl
      | right => exact .inl rfl

theorem forall_of {P : Side → Prop} (t : Side) (h : P t) (h' : P t.other) (s : Side) : P s := by
  rcases s.eq_or_eq_other t with rfl | rfl
  · exact h
  · exact h'

end Side

/-- The state of both engines and of the wire, with what was sent and handed on. -/
structure Exchange where
  engine : Side → LockedEngine
  /-- Packets on their way, with the side that sent them. -/
  wire : List (Side × Packet)
  /-- Payloads that a side took up for sending. -/
  sent : Side → List Bytes
  /-- The numbers of their packets. -/
  numbers : Side → List SeqNum
  /-- Payloads that a side handed to its application. -/
  got : Side → List Bytes
  now : Instant

namespace Exchange

def start (config : Side → Reliability) : Exchange where
  engine s := .start (config s)
  wire := []
  sent _ := []
  numbers _ := []
  got _ := []
  now := 0

/-- One side goes on to another state and puts packets on the wire. -/
def post (x : Exchange) (s : Side) (l : LockedEngine) (packets : List Packet) : Exchange :=
  { x with
    engine := Function.update x.engine s l
    wire := x.wire ++ packets.map fun p => (s, p) }

/-- One side takes up a payload for sending in a packet. -/
def taken (x : Exchange) (s : Side) (p : Packet) (payload : Bytes) : Exchange :=
  { x with
    sent := Function.update x.sent s (x.sent s ++ [payload])
    numbers := Function.update x.numbers s (x.numbers s ++ [p.seq]) }

/-- One side hands on the payloads of released packets. -/
def handed (x : Exchange) (s : Side) (released : List Packet) : Exchange :=
  { x with got := Function.update x.got s (x.got s ++ released.map (·.payload)) }

/-- The packet at a position of the wire is gone. -/
def without (x : Exchange) (i : Nat) : Exchange := { x with wire := x.wire.eraseIdx i }

/-! ## Steps -/

/-- A step of the data phase. -/
inductive Step (able : Side → PacketKind → Prop) : Exchange → Exchange → Prop
  | send {x : Exchange} {s : Side} {payload : Bytes} {p : Packet} {l : LockedEngine} :
      payload.length ≤ maxPayload → (x.engine s).sendData payload x.now = (.ok p, l) →
      Step able x ((x.post s l [p]).taken s p payload)
  | scan {x : Exchange} (s : Side) :
      Step able x (x.post s ((x.engine s).timedOut x.now).2 ((x.engine s).timedOut x.now).1)
  | elapse {x : Exchange} (span : Nat) : Step able x { x with now := x.now + span }
  | lose {x : Exchange} (i : Nat) : Step able x (x.without i)
  | double {x : Exchange} (i : Nat) : Step able x { x with wire := x.wire ++ x.wire[i]?.toList }
  | data {x : Exchange} {i : Nat} {s : Side} {p : Packet} {released : List Packet}
      {l : LockedEngine} :
      x.wire[i]? = some (s, p) → p.kind = .data → able s.other .data →
      (x.engine s.other).receive p = (.ok released, l) → Step able x
        (((x.without i).post s.other l [.acknowledge p.seq.next]).handed s.other released)
  | refuse {x : Exchange} {i : Nat} {s : Side} {p : Packet} {error : EngineError}
      {l : LockedEngine} :
      x.wire[i]? = some (s, p) → p.kind = .data → able s.other .data →
      (x.engine s.other).receive p = (.error error, l) →
      Step able x ((x.without i).post s.other l [])
  | ack {x : Exchange} {i : Nat} {s : Side} {p : Packet} :
      x.wire[i]? = some (s, p) → p.kind = .ack → able s.other .ack →
      Step able x ((x.without i).post s.other ((x.engine s.other).handleAck p x.now).2 [])

abbrev Steps (able : Side → PacketKind → Prop) : Exchange → Exchange → Prop :=
  Relation.ReflTransGen (Step able)

/-- A step that sets a connection up, with the side that it starts anew, if any. -/
inductive Setup (config : Side → Reliability) : Option Side → Exchange → Exchange → Prop
  | connect {x : Exchange} (s : Side) :
      Setup config (some s) x (x.post s (.start (config s)) [.syn .zero])
  | syn {x : Exchange} {i : Nat} {s : Side} {p : Packet} {released : List Packet}
      {l : LockedEngine} :
      x.wire[i]? = some (s, p) → p.kind = .syn → p.hasFlag .ack = false →
      (LockedEngine.start (config s.other)).receive p = (.ok released, l) →
      Setup config (some s.other) x
        (((x.without i).post s.other l [.synAck .zero p.seq.next]).handed s.other released)
  | synAck {x : Exchange} {i : Nat} {s : Side} {p : Packet} {released : List Packet}
      {l : LockedEngine} :
      x.wire[i]? = some (s, p) → p.kind = .syn → p.hasFlag .ack = true →
      (x.engine s.other).receive p = (.ok released, l) →
      Setup config none x (((x.without i).post s.other l []).handed s.other released)

section Fields

variable (x : Exchange) (s : Side) (l : LockedEngine) (packets : List Packet) (p : Packet)
  (payload : Bytes)

@[simp] theorem engine_post_self : (x.post s l packets).engine s = l := by simp [post]

@[simp] theorem engine_post_other :
    (x.post s l packets).engine s.other = x.engine s.other := by simp [post]

@[simp] theorem engine_other_post :
    (x.post s.other l packets).engine s = x.engine s := by simp [post]

@[simp] theorem sent_post : (x.post s l packets).sent = x.sent := rfl

@[simp] theorem numbers_post : (x.post s l packets).numbers = x.numbers := rfl

@[simp] theorem got_post : (x.post s l packets).got = x.got := rfl

@[simp] theorem engine_without (i : Nat) : (x.without i).engine = x.engine := rfl

@[simp] theorem sent_without (i : Nat) : (x.without i).sent = x.sent := rfl

@[simp] theorem got_without (i : Nat) : (x.without i).got = x.got := rfl

@[simp] theorem engine_taken : (x.taken s p payload).engine = x.engine := rfl

@[simp] theorem wire_taken : (x.taken s p payload).wire = x.wire := rfl

@[simp] theorem got_taken : (x.taken s p payload).got = x.got := rfl

@[simp] theorem sent_taken_self :
    (x.taken s p payload).sent s = x.sent s ++ [payload] := by simp [taken]

@[simp] theorem sent_taken_other :
    (x.taken s p payload).sent s.other = x.sent s.other := by simp [taken]

@[simp] theorem sent_other_taken : (x.taken s.other p payload).sent s = x.sent s := by
  simp [taken]

@[simp] theorem numbers_taken_self :
    (x.taken s p payload).numbers s = x.numbers s ++ [p.seq] := by simp [taken]

@[simp] theorem numbers_taken_other :
    (x.taken s p payload).numbers s.other = x.numbers s.other := by simp [taken]

@[simp] theorem numbers_other_taken :
    (x.taken s.other p payload).numbers s = x.numbers s := by simp [taken]

@[simp] theorem engine_handed : (x.handed s packets).engine = x.engine := rfl

@[simp] theorem wire_handed : (x.handed s packets).wire = x.wire := rfl

@[simp] theorem sent_handed : (x.handed s packets).sent = x.sent := rfl

@[simp] theorem numbers_handed : (x.handed s packets).numbers = x.numbers := rfl

@[simp] theorem got_handed_self :
    (x.handed s packets).got s = x.got s ++ packets.map (·.payload) := by simp [handed]

@[simp] theorem got_handed_other : (x.handed s packets).got s.other = x.got s.other := by
  simp [handed]

theorem handed_nil : x.handed s [] = x := by simp [handed]

theorem mem_wire_post {m : Side × Packet} :
    m ∈ (x.post s l packets).wire ↔ m ∈ x.wire ∨ m.1 = s ∧ m.2 ∈ packets := by
  obtain ⟨t, p⟩ := m
  simp only [post, List.mem_append, List.mem_map, Prod.mk.injEq]
  constructor
  · rintro (hm | ⟨q, hq, rfl, rfl⟩)
    · exact .inl hm
    · exact .inr ⟨rfl, hq⟩
  · rintro (hm | ⟨rfl, hq⟩)
    · exact .inl hm
    · exact .inr ⟨p, hq, rfl, rfl⟩

end Fields

end Exchange

end ReliableDatagram
