/-
The engine of a connection, of the kind that its settings ask for.

Both kinds answer every call alike, so an end point does not have to know
which one it drives.  An engine is a locked one or a lock-free one, and each
operation is handed on to the one there is.

An engine is made in two steps.  The settings are checked first, and the first
check that fails is the reason why there is no engine.  Settings that pass may
still be beyond what a table or a queue can be made for; that is a fault.  The
two reasons are kept apart, for an end point reports the one and stops at the
other.
-/
import ReliableDatagram.Engine.Locked
import ReliableDatagram.Engine.LockFree

namespace ReliableDatagram

/-- An engine of either kind. -/
inductive Engine where
  | locked (engine : LockedEngine)
  | lockFree (engine : LockFreeEngine)

/-- Why there is no engine. -/
inductive StartError where
  /-- The settings do not pass their checks. -/
  | refused (error : ConfigError)
  | fault (fault : Fault)
deriving DecidableEq

namespace Engine

/-- An engine with checked settings, if its tables can be had. -/
def new (kind : EngineKind) (config : Reliability) : Except StartError Engine :=
  match config.defect? with
  | some error => .error (.refused error)
  | none =>
    match kind with
    | .locked => (LockedEngine.new config).mapError .fault |>.map .locked
    | .lockFree => (LockFreeEngine.allocate config).mapError .fault |>.map .lockFree

def nextNumber : Engine → SeqNum × Engine
  | .locked e => e.nextNumber.map id .locked
  | .lockFree e => e.nextNumber.map id .lockFree

def budget : Engine → Nat
  | .locked e => e.budget
  | .lockFree e => e.budget

def canSend (e : Engine) : Bool := 0 < e.budget

/-- Records a packet before it goes out. -/
def send (p : Packet) (now : Instant) : Engine → Except EngineError Unit × Engine
  | .locked e => (e.send p now).map id .locked
  | .lockFree e => (e.send p now).map id .lockFree

def sendData (payload : Bytes) (now : Instant) : Engine → Except EngineError Packet × Engine
  | .locked e => (e.sendData payload now).map id .locked
  | .lockFree e => (e.sendData payload now).map id .lockFree

def isUnacked (s : SeqNum) : Engine → Bool
  | .locked e => e.isUnacked s
  | .lockFree e => e.isUnacked s

def retries? (s : SeqNum) : Engine → Option UInt32
  | .locked e => e.retries? s
  | .lockFree e => e.retries? s

def handleAck (p : Packet) (now : Instant) : Engine → Except EngineError Bool × Engine
  | .locked e => (e.handleAck p now).map id .locked
  | .lockFree e => (e.handleAck p now).map id .lockFree

def ordering : Engine → OrderingBuffer
  | .locked e => e.ordering
  | .lockFree e => e.ordering

/-- Works off a received packet; answers the DATA packets whose turn has come. -/
def receive (p : Packet) : Engine → Released × Engine
  | .locked e => (e.receive p).map id .locked
  | .lockFree e => (e.receive p).map id .lockFree

/-- Receives `p` while a second caller comes with `q`. -/
def receivePair (p q : Packet) : Engine → Released × Released × Engine
  | .locked e =>
    let (first, e) := e.receive p
    let (second, e) := e.receive q
    (first, second, .locked e)
  | .lockFree e =>
    let (first, second, e) := e.receivePair p q
    (first, second, .lockFree e)

def timedOut (now : Instant) : Engine → List Packet × Engine
  | .locked e => (e.timedOut now).map id .locked
  | .lockFree e => (e.timedOut now).map id .lockFree

/-- Counts a loss, whoever noticed it. -/
def onLoss : Engine → Engine
  | .locked e => .locked e.onLoss
  | .lockFree e => .lockFree e.onLoss

def stats : Engine → EngineStats
  | .locked e => e.stats
  | .lockFree e => e.stats

end Engine

end ReliableDatagram
