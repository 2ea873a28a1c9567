/-
A network of end points under one clock.

Every datagram that an end point sends goes to the end of one list, the wire,
and stays there until it is delivered, thrown away or damaged.  The clock only
moves when told to; on its way each end point scans whenever its timer ticks.  A
transport can be told to fail or to report short sends.

## What one step is

Each step gives one input to one node and carries out all that follows from it
before the next one begins: a call of the application is looked up, worked off and
sent, a datagram is received, acknowledged and dispatched.  States in the middle of
an input cannot be observed, and neither can the interleavings of the threads of
one node.  Between two nodes everything is open: what stands on the wire can be
delivered in any order, again, late or never, and between any two scans.

Scans that fall due at one time are made by node, in the order of the nodes.

## Loops

A node has a loop that receives and one that scans.  A datagram that makes the end
point meet a fault ends the receive loop of its node, and nothing else; a receive
loop whose buffer cannot be had ends before it begins.
-/
import ReliableDatagram.Allocation
import ReliableDatagram.EndPoint.Basic
import ReliableDatagram.Network.Timer

namespace ReliableDatagram

structure Datagram where
  source : Address
  target : Address
  bytes : Bytes
deriving DecidableEq

/-- An end point with its transport and its loops. -/
structure Node where
  endPoint : EndPoint
  /-- Whether the transport knows its own address. -/
  hasLocalAddress : Bool := true
  /-- How many of the next sends fail. -/
  failingSends : Nat := 0
  /-- The most bytes that the transport reports as sent. -/
  reportLimit : Option Nat := none
  /-- Whether datagrams are still received. -/
  receiving : Bool := true
  /-- Whether packets are still sent again. -/
  scanning : Bool := true
  /-- Whether the application still takes payloads. -/
  listening : Bool := true

/-- What can be observed of a step, by position of the node. -/
inductive Event where
  | sent (node : Nat) (target : Address) (bytes : Bytes)
  | got (node : Nat) (source : Address) (payload : Bytes)
deriving DecidableEq

/-- End points, the datagrams between them and the time. -/
structure Network where
  timer : Timer
  nodes : List Node
  wire : List Datagram := []
  now : Instant := 0

namespace Node

/-- A node that starts its loops.  The one that receives ends at once if the
buffer for a datagram cannot be had. -/
def start (endPoint : EndPoint) (hasLocalAddress : Bool) : Node :=
  { endPoint, hasLocalAddress, receiving := Allocation.fits endPoint.config.receiveLength }

def address (n : Node) : Address := n.endPoint.config.selfAddress

/-- The bytes that the transport reports as sent of `size`. -/
def reported (n : Node) (size : Nat) : Nat :=
  match n.reportLimit with
  | none => size
  | some limit => min limit size

/-- The transport's share in a send: the node afterwards, and whether the
datagram goes out. -/
def transmit (n : Node) (size : Nat) : Node × Bool :=
  if n.failingSends = 0 then
    ({ n with endPoint := n.endPoint.countSent (n.reported size) }, true)
  else
    ({ n with failingSends := n.failingSends - 1, endPoint := n.endPoint.countSendError }, false)

/-- What a received datagram's bytes are cut to. -/
def received (n : Node) (bytes : Bytes) : Bytes := bytes.take n.endPoint.config.receiveLength

/-- The node without its loops. -/
def shutDown (n : Node) : Node := { n with receiving := false, scanning := false }

/-- A node whose receive loop ran into a fault receives nothing any more. -/
def afterReceive (n : Node) : Answer → Node
  | .refused (.start (.fault _)) => { n with receiving := false }
  | _ => n

end Node

/-- How many loops a running end point has: receiving, scanning, reporting. -/
def loopCount : Nat := 3

namespace Network

def new (timer : Timer) (nodes : List Node) : Network := { timer, nodes }

def modifyNode (net : Network) (i : Nat) (f : Node → Node) : Network :=
  { net with nodes := net.nodes.modify i f }

/-- Puts a packet on the wire, if the node's transport plays along. -/
def transmit (net : Network) (i : Nat) (node : Node) (target : Address) (p : Packet) :
    Network × List Event :=
  let bytes := p.encode
  let (node', goesOut) := node.transmit bytes.length
  let net := net.modifyNode i fun _ => node'
  if goesOut then
    ({ net with wire := net.wire ++ [⟨node.address, target, bytes⟩] }, [.sent i target bytes])
  else (net, [])

/-- Carries out one effect of a node. -/
def perform (net : Network) (i : Nat) (effect : Effect) : Network × List Event :=
  match net.nodes[i]? with
  | none => (net, [])
  | some node =>
    match effect with
    | .transmit target p => net.transmit i node target p
    | .dispatch source payload => (net, if node.listening then [.got i source payload] else [])

def performAll (net : Network) (i : Nat) : List Effect → Network × List Event
  | [] => (net, [])
  | effect :: rest =>
    let (net, events) := net.perform i effect
    let (net, more) := net.performAll i rest
    (net, events ++ more)

/-- Gives a node an input and carries out what follows from it. -/
def act (net : Network) (i : Nat) (input : Input) : Answer × Network × List Event :=
  match net.nodes[i]? with
  | none => (.done, net, [])
  | some node =>
    let outcome := node.endPoint.step net.now input
    let net := net.modifyNode i fun n => { n with endPoint := outcome.endPoint }
    (outcome.answer, net.performAll i outcome.effects)

/-- Hands a datagram to a node whose receive loop runs. -/
def receive (net : Network) (i : Nat) (source : Address) (bytes : Bytes) :
    Network × List Event :=
  match net.nodes[i]? with
  | none => (net, [])
  | some node =>
    if node.receiving then
      let (answer, net, events) := net.act i (.datagram source (node.received bytes))
      (net.modifyNode i (·.afterReceive answer), events)
    else (net, [])

/-! ## The wire -/

/-- The position of the node with an address. -/
def nodeAt? (net : Network) (address : Address) : Option Nat :=
  net.nodes.findIdx? (·.address == address)

/-- Hands a datagram to the node it is meant for, if there is one. -/
def handOver (net : Network) (d : Datagram) : Network × List Event :=
  match net.nodeAt? d.target with
  | none => (net, [])
  | some i => net.receive i d.source d.bytes

/-- What happens to a datagram on delivery. -/
structure Handling where
  /-- Leaves a copy on the wire. -/
  keep : Bool := false
  /-- Throws the datagram away. -/
  discard : Bool := false
  /-- Inverts the byte at this position, counted around. -/
  flip : Option Nat := none
  /-- Cuts the bytes to this length. -/
  cut : Option Nat := none

/-- The bytes with the one at a position, counted around, inverted. -/
def flipped (bytes : Bytes) (position : Nat) : Bytes :=
  bytes.modify (position % bytes.length) fun b => ~~~ b

/-- The bytes as they arrive. -/
def Handling.apply (h : Handling) (bytes : Bytes) : Bytes :=
  let bytes := match h.flip with
    | none => bytes
    | some position => flipped bytes position
  match h.cut with
  | none => bytes
  | some length => bytes.take length

/-- What became of a datagram. -/
inductive Delivered where
  | nothingOnWire
  | discarded (datagram : Datagram)
  /-- Handed over as it is here; `known` tells whether a node has the address. -/
  | handedOver (datagram : Datagram) (known : Bool)

/-- Takes the datagram at a position, counted around, off the wire. -/
def deliver (net : Network) (index : Nat) (h : Handling) : Delivered × Network × List Event :=
  let position := index % net.wire.length
  match net.wire[position]? with
  | none => (.nothingOnWire, net, [])
  | some d =>
    let net := if h.keep then net else { net with wire := net.wire.eraseIdx position }
    if h.discard then (.discarded d, net, [])
    else
      let d := { d with bytes := h.apply d.bytes }
      (.handedOver d (net.nodeAt? d.target).isSome, net.handOver d)

/-- Delivers from the front of the wire, at most `limit` datagrams, replies
included; answers how many. -/
def deliverAll : (limit : Nat) → Network → Nat × Network × List Event
  | 0, net => (0, net, [])
  | limit + 1, net =>
    match net.wire with
    | [] => (0, net, [])
    | d :: rest =>
      let (net, events) := { net with wire := rest }.handOver d
      let (count, net, more) := deliverAll limit net
      (count + 1, net, events ++ more)

/-! ## The clock -/

/-- The scans due after the present and up to `finish`: by time, and at one
time by node. -/
def dueScans (net : Network) (finish : Instant) : List (Instant × Nat) :=
  let perNode := net.nodes.mapIdx fun i node =>
    (net.timer.ticks i node.endPoint.config.scanInterval.nanos net.now finish).map fun t => (t, i)
  perNode.flatten.mergeSort fun a b => decide (a.1 ≤ b.1)

/-- One scan of a node that still scans. -/
def scanAt (net : Network) (due : Instant × Nat) : Network × List Event :=
  let net := { net with now := due.1 }
  match net.nodes[due.2]? with
  | none => (net, [])
  | some node => if node.scanning then (net.act due.2 .scan).2 else (net, [])

def scanAll (net : Network) : List (Instant × Nat) → Network × List Event
  | [] => (net, [])
  | due :: rest =>
    let (net, events) := net.scanAt due
    let (net, more) := net.scanAll rest
    (net, events ++ more)

/-- Moves the clock on, with all scans that fall due. -/
def advance (net : Network) (span : Duration) : Network × List Event :=
  let finish := net.now + span.nanos
  let (net, events) := net.scanAll (net.dueScans finish)
  ({ net with now := finish }, events)

end Network

end ReliableDatagram
