/-
Commands to a network, and what each of them answers.

A command goes to one node, to the wire or to the clock.  A fault in a call
of the application ends the run, and so it is an answer of its own kind.

Commands are all that a user of the library, its transport and its host can do
together: calls of the application, datagrams that come from elsewhere, errors of
the transport, time, and the start and end of the loops.  A node that was shut down
stays so, and starting its loops again finds each of them ended at once.
-/
import ReliableDatagram.Network.Basic

namespace ReliableDatagram

/-- What a network can be told. -/
inductive Command where
  | connect (node : Nat) (peer : Address)
  | close (node : Nat) (peer : Address)
  | send (node : Nat) (peer : Address) (payload : Bytes)
  /-- A datagram arrives from outside. -/
  | datagram (node : Nat) (source : Address) (bytes : Bytes)
  /-- The transport fails to receive once. -/
  | receiveError (node : Nat)
  | deliver (index : Nat) (handling : Network.Handling)
  | deliverAll (limit : Nat)
  | advance (span : Duration)
  /-- The next sends fail. -/
  | failSends (node : Nat) (count : Nat)
  /-- Sends report at most so many bytes from now on. -/
  | shortSends (node : Nat) (limit : Option Nat)
  | localAddress (node : Nat)
  | connection (node : Nat) (peer : Address)
  /-- The application gives up its end of the payload channel. -/
  | dropReceiver (node : Nat)
  | shutDown (node : Nat)
  /-- Starts the loops of a node again. -/
  | spawn (node : Nat)

/-- What a command answers. -/
inductive Reply where
  | nothing
  | accepted
  | done
  | numbered (seq : SeqNum)
  | refused (error : EndPointError)
  /-- The call of the application broke a precondition. -/
  | fault (fault : Fault)
  | delivered (result : Network.Delivered)
  | count (n : Nat)
  | address (address : Address)
  /-- The peer, if there is a connection to it, and the connection's state. -/
  | connection (peer : Address) (stats : Option EngineStats)

namespace Network

/-- The reply to a call of the application. -/
def replyOf : Answer → Reply
  | .done => .done
  | .numbered seq => .numbered seq
  | .refused (.start (.fault fault)) => .fault fault
  | .refused error => .refused error

def call (net : Network) (i : Nat) (input : Input) : Reply × Network × List Event :=
  let (answer, net, events) := net.act i input
  (replyOf answer, net, events)

/-- The address of a node as its transport knows it. -/
def localAddress (net : Network) (i : Nat) : Reply :=
  match net.nodes[i]? with
  | none => .nothing
  | some node => if node.hasLocalAddress then .address node.address else .refused .noLocalAddress

def connectionOf (net : Network) (i : Nat) (peer : Address) : Option EngineStats :=
  net.nodes[i]?.bind (·.endPoint.connectionStats peer)

/-- How many loops of a node have ended once it is told to start them: all
of them, since a node that was shut down stays so. -/
def endedLoops (net : Network) (i : Nat) : Nat :=
  match net.nodes[i]? with
  | none => 0
  | some node => if node.scanning then 0 else loopCount

def run (net : Network) : Command → Reply × Network × List Event
  | .connect i peer => net.call i (.connect peer)
  | .close i peer => net.call i (.close peer)
  | .send i peer payload => net.call i (.send peer payload)
  | .datagram i source bytes => (.accepted, net.receive i source bytes)
  | .receiveError _ => (.accepted, net, [])
  | .deliver index handling =>
    let (result, net, events) := net.deliver index handling
    (.delivered result, net, events)
  | .deliverAll limit =>
    let (n, net, events) := net.deliverAll limit
    (.count n, net, events)
  | .advance span =>
    let (net, events) := net.advance span
    (.count (net.now / 1000000), net, events)
  | .failSends i count =>
    (.nothing, net.modifyNode i fun n => { n with failingSends := count }, [])
  | .shortSends i limit =>
    (.nothing, net.modifyNode i fun n => { n with reportLimit := limit }, [])
  | .localAddress i => (net.localAddress i, net, [])
  | .connection i peer => (.connection peer (net.connectionOf i peer), net, [])
  | .dropReceiver i => (.nothing, net.modifyNode i fun n => { n with listening := false }, [])
  | .shutDown i => (.count loopCount, net.modifyNode i (·.shutDown), [])
  | .spawn i => (.count (net.endedLoops i), net, [])

end Network

end ReliableDatagram
