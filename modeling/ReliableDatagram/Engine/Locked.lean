/-
The engine that keeps each part of its state as it is: tracker, window,
estimate and ordering buffer side by side, each changed by one operation at
a time.

The window is checked before the slot, and both before anything is changed, so a
refused send leaves no trace.  A payload that finds a packet in the slot of the
next number is told that the window is full, and no number is used up.

This engine is the reference for the other one.  Most results about engines are
proved for it and carried over along the relation between the two; its state has
no packed words, so an invariant here speaks of the numbers themselves.
-/
import ReliableDatagram.Engine.Basic
import ReliableDatagram.Sending.Tracker

namespace ReliableDatagram

/-- State of one connection, part by part. -/
structure LockedEngine where
  config : Reliability
  numbering : Numbering
  tracker : Tracker
  window : CongestionWindow
  roundTrip : RoundTrip
  ordering : OrderingBuffer
  tally : Tally
deriving DecidableEq

namespace LockedEngine

def new (config : Reliability) : Except Fault LockedEngine := do
  let tracker ← Tracker.new config.tableSize
  return {
    config
    numbering := .start
    tracker
    window := config.firstWindow
    roundTrip := config.firstRoundTrip
    ordering := config.firstOrdering
    tally := {} }

/-- The packets in flight that are allowed now. -/
def effectiveWindow (e : LockedEngine) : UInt32 := e.window.effective e.config.windowSize

def windowFull (e : LockedEngine) : EngineError := .windowFull e.tracker.size e.effectiveWindow

def isWindowFull (e : LockedEngine) : Bool := e.effectiveWindow.toNat ≤ e.tracker.size

/-- Takes the next sequence number, needed or not. -/
def nextNumber (e : LockedEngine) : SeqNum × LockedEngine :=
  let (s, numbering) := e.numbering.allocate
  (s, { e with numbering })

/-- How many more DATA packets may be sent now. -/
def budget (e : LockedEngine) : Nat := e.window.budget e.config.windowSize e.tracker.size

/-- Takes up a DATA packet for which there is room in the window. -/
def track (e : LockedEngine) (p : Packet) (now : Instant) : Except EngineError Unit × LockedEngine :=
  match e.tracker.record p now with
  | (true, tracker) => (.ok (), { e with tracker, tally := e.tally.countSent })
  | (false, tracker) => (.error (.slotCollision p.seq), { e with tracker })

/-- Records a packet before it goes out.  Only DATA is subject to flow
control and tracked; everything else passes. -/
def send (e : LockedEngine) (p : Packet) (now : Instant) : Except EngineError Unit × LockedEngine :=
  if ¬ p.isKind .data then (.ok (), e)
  else if e.isWindowFull then (.error e.windowFull, e)
  else e.track p now

/-- Numbers and records a payload.  A packet in the slot of the next number
stops sending like a full window does, and no number is used up. -/
def sendData (e : LockedEngine) (payload : Bytes) (now : Instant) :
    Except EngineError Packet × LockedEngine :=
  if e.isWindowFull then (.error e.windowFull, e)
  else match e.numbering.allocateIf e.tracker.isVacant with
    | (none, numbering) => (.error e.windowFull, { e with numbering })
    | (some s, numbering) =>
      match { e with numbering }.track (.data s payload) now with
      | (.ok (), e') => (.ok (.data s payload), e')
      | (.error err, e') => (.error err, e')

def isUnacked (e : LockedEngine) (s : SeqNum) : Bool := e.tracker.isUnacked s

def retries? (e : LockedEngine) (s : SeqNum) : Option UInt32 := e.tracker.retries? s

/-- The state after the acknowledgement of a packet sent at `sentAt`. -/
def acknowledged (e : LockedEngine) (sentAt now : Instant) : LockedEngine :=
  { e with
    roundTrip := e.config.sampled e.roundTrip (.between sentAt now)
    window := e.config.grown e.window }

/-- Works off a packet with the ACK flag; answers whether it acknowledged a
packet in flight. -/
def handleAck (e : LockedEngine) (p : Packet) (now : Instant) :
    Except EngineError Bool × LockedEngine :=
  if ¬ p.hasFlag .ack then (.error .notAnAck, e)
  else match e.tracker.acknowledge p.ack with
    | (none, tracker) =>
      (unmatchedAck p.ack (e.numbering.highestIssued tracker.highest), { e with tracker })
    | (some u, tracker) => (.ok true, { e with tracker }.acknowledged u.sentAt now)

def receiveData (e : LockedEngine) (p : Packet) : Released × LockedEngine :=
  match e.ordering.receive p with
  | (.duplicate, ordering) => (.ok [], { e with ordering })
  | (.overflow, ordering) => (.error (.bufferOverflow ordering.capacity), { e with ordering })
  | (.accepted released, ordering) =>
    (.ok released, { e with ordering, tally := e.tally.countReceived })

/-- Moves the receive position behind a SYN, with an ACK flag only forward. -/
def receiveSyn (e : LockedEngine) (p : Packet) : Released × LockedEngine :=
  let (released, ordering) :=
    if p.hasFlag .ack then e.ordering.advance p.seq.next else e.ordering.resync p.seq.next
  (.ok released, { e with ordering })

/-- Works off a received packet; answers the DATA packets whose turn has come. -/
def receive (e : LockedEngine) (p : Packet) : Released × LockedEngine :=
  match p.kind with
  | .data => e.receiveData p
  | .syn => e.receiveSyn p
  | _ => (.ok [], e)

/-- Counts a loss, whoever noticed it. -/
def onLoss (e : LockedEngine) : LockedEngine := { e with window := e.window.onLoss }

/-- The packets to send again.  Finding any counts as one loss. -/
def timedOut (e : LockedEngine) (now : Instant) : List Packet × LockedEngine :=
  let (offers, tracker) := e.tracker.scan now e.roundTrip.timeout
  if offers.isEmpty then ([], { e with tracker })
  else (offers.map (·.packet),
    { e with tracker, tally := e.tally.countOffers offers }.onLoss)

def stats (e : LockedEngine) : EngineStats where
  tally := e.tally
  window := e.window.size
  threshold := e.window.threshold
  roundTrip := e.roundTrip.smoothed
  timeout := e.roundTrip.timeout
  unacked := e.tracker.size

end LockedEngine

end ReliableDatagram
