/-
End points: where the protocol meets the network.

An end point keeps a connection per peer.  A connection comes into being with
the first packet from or to its peer; a SYN without ACK flag starts it anew,
a FIN or RST ends it.  What an end point wants sent and handed to the
application it answers as a list of effects, so that no rule depends on what
the transport makes of them; only the traffic counters learn of that.

## One input at a time

An input is worked off as a whole.  A send looks up the connection and then gives
the payload to its engine, and no other input comes in between; a packet is
received, acknowledged and dispatched in one step.  The program itself gives up
the table of connections between the lookup and the call to the engine, so there
a SYN that another thread receives meanwhile can replace the connection that a
send has already looked up; the payload is then numbered by an engine that no
longer belongs to the connection.  Such interleavings are not described here.  All
that is proved about end points is about inputs that come one after the other,
each from the state that the one before left.

The order of the effects of one input is that in which the program makes them: the
acknowledgement of DATA goes out before what it releases is dispatched, and the
reply to a SYN goes out after it.
-/
import ReliableDatagram.EndPoint.Connections
import ReliableDatagram.Packet.Wire

namespace ReliableDatagram

/-- What an end point wants done. -/
inductive Effect where
  | transmit (target : Address) (packet : Packet)
  /-- Hands a payload to the application. -/
  | dispatch (source : Address) (payload : Bytes)
deriving DecidableEq

/-- Counters of what went over the transport, 64-bit words like those of an engine and as
far from their end. -/
structure Traffic where
  datagramsIn : Nat := 0
  datagramsOut : Nat := 0
  bytesIn : Nat := 0
  bytesOut : Nat := 0
  /-- Datagrams that were no packets. -/
  decodeErrors : Nat := 0
  sendErrors : Nat := 0
deriving DecidableEq

namespace Traffic

def countIn (t : Traffic) (bytes : Nat) : Traffic :=
  { t with datagramsIn := t.datagramsIn + 1, bytesIn := t.bytesIn + bytes }

def countOut (t : Traffic) (bytes : Nat) : Traffic :=
  { t with datagramsOut := t.datagramsOut + 1, bytesOut := t.bytesOut + bytes }

def countDecodeError (t : Traffic) : Traffic := { t with decodeErrors := t.decodeErrors + 1 }

def countSendError (t : Traffic) : Traffic := { t with sendErrors := t.sendErrors + 1 }

end Traffic

/-- Why an end point refuses a call. -/
inductive EndPointError where
  | payloadTooLong (length : Nat)
  | noConnection (peer : Address)
  | noLocalAddress
  | engine (error : EngineError)
  /-- No engine for a new connection. -/
  | start (error : StartError)
deriving DecidableEq

def EndPointError.message : EndPointError → String
  | payloadTooLong length =>
    s!"payload of {length} bytes exceeds the maximum of {maxPayload} bytes"
  | noConnection peer => s!"no connection to {peer}"
  | noLocalAddress => "no local address"
  | engine error => error.message
  | start (.refused error) => error.message
  | start (.fault fault) => fault.message

structure EndPoint where
  config : EndPointConfig
  connections : Connections
  traffic : Traffic

/-- What an end point is asked to do. -/
inductive Input where
  | connect (peer : Address)
  | send (peer : Address) (payload : Bytes)
  | close (peer : Address)
  | datagram (source : Address) (bytes : Bytes)
  /-- Looks for packets to send again. -/
  | scan
deriving DecidableEq

/-- What whoever asked is told. -/
inductive Answer where
  | done
  | numbered (seq : SeqNum)
  | refused (error : EndPointError)
deriving DecidableEq

/-- Answer, state and effects after an input. -/
structure Outcome where
  answer : Answer
  endPoint : EndPoint
  effects : List Effect

namespace EndPoint

def new (config : EndPointConfig) : Except ConfigError EndPoint :=
  match config.defect? with
  | some error => .error error
  | none => .ok ⟨config, .empty, {}⟩

/-! ## Connections -/

def newEngine (e : EndPoint) : Except StartError Engine :=
  Engine.new e.config.engineKind e.config.reliability

/-- The engine for a peer, a new one if there is none yet. -/
def engineFor (e : EndPoint) (peer : Address) : Except StartError Engine :=
  match e.connections.find? peer with
  | some engine => .ok engine
  | none => e.newEngine

def setEngine (e : EndPoint) (peer : Address) (engine : Engine) : EndPoint :=
  { e with connections := e.connections.insert peer engine }

def drop (e : EndPoint) (peer : Address) : EndPoint :=
  { e with connections := e.connections.erase peer }

/-! ## Calls of the application -/

/-- Starts a connection anew and says so to the peer. -/
def connect (e : EndPoint) (peer : Address) : Outcome :=
  match e.newEngine with
  | .error error => ⟨.refused (.start error), e, []⟩
  | .ok engine => ⟨.done, e.setEngine peer engine, [.transmit peer (.syn .zero)]⟩

/-- Sends a payload as one DATA packet. -/
def send (e : EndPoint) (peer : Address) (payload : Bytes) (now : Instant) : Outcome :=
  if maxPayload < payload.length then ⟨.refused (.payloadTooLong payload.length), e, []⟩
  else match e.engineFor peer with
    | .error error => ⟨.refused (.start error), e, []⟩
    | .ok engine =>
      match engine.sendData payload now with
      | (.error error, engine) => ⟨.refused (.engine error), e.setEngine peer engine, []⟩
      | (.ok p, engine) => ⟨.numbered p.seq, e.setEngine peer engine, [.transmit peer p]⟩

/-- Ends a connection and says so to the peer. -/
def close (e : EndPoint) (peer : Address) : Outcome :=
  match e.connections.find? peer with
  | none => ⟨.refused (.noConnection peer), e, []⟩
  | some engine => ⟨.done, e.drop peer, [.transmit peer (.fin engine.nextNumber.1)]⟩

/-! ## Received packets -/

def dispatches (source : Address) (released : List Packet) : List Effect :=
  released.map fun p => .dispatch source p.payload

/-- DATA is acknowledged if the engine accepts it or has seen it before, and
not if the engine has no room for it. -/
def onData (e : EndPoint) (source : Address) (p : Packet) : Outcome :=
  match e.engineFor source with
  | .error error => ⟨.refused (.start error), e, []⟩
  | .ok engine =>
    match engine.receive p with
    | (.error _, engine) => ⟨.done, e.setEngine source engine, []⟩
    | (.ok released, engine) =>
      ⟨.done, e.setEngine source engine,
        .transmit source (.acknowledge p.seq.next) :: dispatches source released⟩

/-- An acknowledgement reaches an existing connection only. -/
def onAck (e : EndPoint) (source : Address) (p : Packet) (now : Instant) : Outcome :=
  match e.connections.find? source with
  | none => ⟨.done, e, []⟩
  | some engine => ⟨.done, e.setEngine source (engine.handleAck p now).2, []⟩

/-- The reply to a SYN, unless it is itself a reply. -/
def synReply (source : Address) (p : Packet) : List Effect :=
  if p.hasFlag .ack then [] else [.transmit source (.synAck .zero p.seq.next)]

/-- A SYN starts the connection anew; as a reply it keeps the one there is. -/
def onSyn (e : EndPoint) (source : Address) (p : Packet) : Outcome :=
  match if p.hasFlag .ack then e.engineFor source else e.newEngine with
  | .error error => ⟨.refused (.start error), e, []⟩
  | .ok engine =>
    match engine.receive p with
    | (.error _, engine) => ⟨.done, e.setEngine source engine, synReply source p⟩
    | (.ok released, engine) =>
      ⟨.done, e.setEngine source engine, dispatches source released ++ synReply source p⟩

/-- The reply to a FIN, unless it is itself a reply. -/
def finReply (source : Address) (p : Packet) : List Effect :=
  if p.hasFlag .ack then [] else [.transmit source (.finAck .zero p.seq.next)]

def onFin (e : EndPoint) (source : Address) (p : Packet) : Outcome :=
  ⟨.done, e.drop source, finReply source p⟩

/-- An RST ends the connection without a reply. -/
def onRst (e : EndPoint) (source : Address) : Outcome := ⟨.done, e.drop source, []⟩

def onPacket (e : EndPoint) (source : Address) (p : Packet) (now : Instant) : Outcome :=
  match p.kind with
  | .data => e.onData source p
  | .ack => e.onAck source p now
  | .syn => e.onSyn source p
  | .fin => e.onFin source p
  | .rst => e.onRst source

/-- Works off a received datagram; what is no packet is counted and dropped. -/
def onDatagram (e : EndPoint) (source : Address) (bytes : Bytes) (now : Instant) : Outcome :=
  let e := { e with traffic := e.traffic.countIn bytes.length }
  match Packet.decode bytes with
  | .error _ => ⟨.done, { e with traffic := e.traffic.countDecodeError }, []⟩
  | .ok p => e.onPacket source p now

/-! ## Retransmission -/

/-- A connection after a scan, with what it sends again. -/
def scanEntry (now : Instant) (entry : Address × Engine) : (Address × Engine) × List Effect :=
  let (packets, engine) := entry.2.timedOut now
  ((entry.1, engine), packets.map (.transmit entry.1))

/-- Sends again what is overdue, connection by connection. -/
def scan (e : EndPoint) (now : Instant) : Outcome :=
  let scanned := e.connections.entries.map (scanEntry now)
  ⟨.done, { e with connections := ⟨scanned.map (·.1)⟩ }, scanned.flatMap (·.2)⟩

/-- One input, at a point in time. -/
def step (e : EndPoint) (now : Instant) : Input → Outcome
  | .connect peer => e.connect peer
  | .send peer payload => e.send peer payload now
  | .close peer => e.close peer
  | .datagram source bytes => e.onDatagram source bytes now
  | .scan => e.scan now

/-! ## Reporting -/

/-- The transport took a packet and reports `bytes` of it as sent. -/
def countSent (e : EndPoint) (bytes : Nat) : EndPoint :=
  { e with traffic := e.traffic.countOut bytes }

/-- The transport failed to send a packet. -/
def countSendError (e : EndPoint) : EndPoint :=
  { e with traffic := e.traffic.countSendError }

/-- The state of a peer's connection as reports show it. -/
def connectionStats (e : EndPoint) (peer : Address) : Option EngineStats :=
  (e.connections.find? peer).map (·.stats)

/-- A report on the end point in one line. -/
def text (e : EndPoint) : String :=
  let t := e.traffic
  "datagrams in=" ++ toString t.datagramsIn ++ " out=" ++ toString t.datagramsOut ++
    ", bytes in=" ++ toString t.bytesIn ++ " out=" ++ toString t.bytesOut ++
    ", decode errors=" ++ toString t.decodeErrors ++
    ", send errors=" ++ toString t.sendErrors ++
    ", connections=" ++ toString e.connections.size

end EndPoint

end ReliableDatagram
