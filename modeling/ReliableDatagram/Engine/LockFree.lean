/-
The engine whose parts are single words and slots, each changed in one swap.

Packets in flight sit in a slot table; a counter is raised before a packet is
put there and lowered again if it finds no slot.  Window and estimate are one
packed word each.  Received work goes to whoever holds the drain flag: that
caller works off its own item, then everything queued by callers who found
the flag taken, and files each result under the ticket of its caller.  The
receive position is published after every item that succeeds, so that
duplicates are turned away without the flag.

## What one step is

An operation is a function from state to state, so between its loads and its swaps
no other thread comes in, and a swap never has to be tried again.  What several
callers can make of one engine is still visible in the receiving part, which is cut
into the steps that a caller takes there: making work of a packet, taking the flag
or finding it taken, queueing, draining, filing and collecting.  The theory about
draining lets these steps come in any order and from any callers.

A waiting operation does nothing.  With nobody else at work no operation waits,
and `getD` has the answer for the case that does not occur.
-/
import ReliableDatagram.Allocation
import ReliableDatagram.Engine.Basic
import ReliableDatagram.Receiving.BoundedQueue
import ReliableDatagram.Sending.SlotTable

namespace ReliableDatagram

/-- Work for the ordering buffer. -/
inductive Work where
  | data (packet : Packet)
  /-- Moves the position to `target`, only forward if so marked. -/
  | resync (target : SeqNum) (forwardOnly : Bool)
deriving DecidableEq

/-- Queued work, with the ticket under which its caller asks for the result. -/
structure Inbound where
  work : Work
  ticket : Nat
deriving DecidableEq

/-- State of one connection, word by word. -/
structure LockFreeEngine where
  config : Reliability
  numbering : Numbering
  table : SlotTable Unacked
  /-- Packets in the table and packets on their way there. -/
  inFlight : UInt32
  /-- The highest recorded number, or the greatest word if there is none. -/
  highestWord : UInt64
  windowBits : UInt64
  roundTripBits : UInt64
  inbound : BoundedQueue Inbound
  /-- Set while a caller works on the ordering buffer. -/
  draining : Bool
  ordering : OrderingBuffer
  /-- The receive position as callers without the flag see it. -/
  published : SeqNum
  /-- Results of queued work that were not asked for yet. -/
  outcomes : List (Nat × Released)
  tally : Tally

namespace LockFreeEngine

/-- The word that stands for "no number recorded". -/
def nothingRecorded : UInt64 := 18446744073709551615

/-- Room in the queue for received work: the least power of two that holds
the ordering buffer's capacity, and at least two.  It has to be a 64-bit
word, so there is none beyond 2⁶³.  That is a fault in a build with overflow
checks, which is the one modelled here; in one without, the power wraps to zero
and the queue has two cells. -/
def queueCapacity (receiveCapacity : Nat) : Except Fault Nat :=
  if 0x8000000000000000 < receiveCapacity then .error .wordOverflow
  else .ok (max 2 (powerOfTwoAbove receiveCapacity))

def new (config : Reliability) : Except Fault LockFreeEngine := do
  let capacity ← queueCapacity config.receiveCapacity
  let table ← SlotTable.new config.tableSize
  let inbound ← BoundedQueue.new capacity
  return {
    config
    numbering := .start
    table
    inFlight := 0
    highestWord := nothingRecorded
    windowBits := config.firstWindow.toBits
    roundTripBits := config.firstRoundTrip.toBits
    inbound
    draining := false
    ordering := config.firstOrdering
    published := config.initialReceive
    outcomes := []
    tally := {} }

/-- A new engine, if its table and its queue can be had. -/
def allocate (config : Reliability) : Except Fault LockFreeEngine := do
  let capacity ← queueCapacity config.receiveCapacity
  Allocation.request config.tableSize
  Allocation.request capacity
  new config

def window (e : LockFreeEngine) : CongestionWindow := .ofBits e.windowBits

/-- Replaces the window by what `f` makes of it. -/
def updateWindow (e : LockFreeEngine) (f : CongestionWindow → CongestionWindow) :
    LockFreeEngine :=
  { e with windowBits := (f e.window).toBits }

def roundTrip (e : LockFreeEngine) : RoundTrip := .ofBits e.roundTripBits

def updateRoundTrip (e : LockFreeEngine) (f : RoundTrip → RoundTrip) : LockFreeEngine :=
  { e with roundTripBits := (f e.roundTrip).toBits }

def highest (e : LockFreeEngine) : Option SeqNum :=
  if e.highestWord = nothingRecorded then none
  else some ⟨UInt32.ofNat e.highestWord.toNat⟩

def raiseHighest (e : LockFreeEngine) (s : SeqNum) : LockFreeEngine :=
  { e with highestWord := UInt64.ofNat (SeqNum.highestWith e.highest s).word.toNat }

def effectiveWindow (e : LockFreeEngine) : UInt32 := e.window.effective e.config.windowSize

def keyOf (s : SeqNum) : Nat := s.word.toNat

def isVacant (e : LockFreeEngine) (s : SeqNum) : Bool := e.table.isVacant (keyOf s)

/-- What `f` finds in the packet with a number. -/
def inspect {α : Type} (e : LockFreeEngine) (s : SeqNum) (f : Unacked → α) : Option α :=
  let look (u : Unacked) := (if u.packet.seq = s then some (f u) else none, u)
  ((e.table.withEntry (keyOf s) look).getD (none, e.table)).1.join

/-! ## Sending -/

def nextNumber (e : LockFreeEngine) : SeqNum × LockFreeEngine :=
  let (s, numbering) := e.numbering.allocate
  (s, { e with numbering })

def budget (e : LockFreeEngine) : Nat := e.window.budget e.config.windowSize e.inFlight.toNat

/-- Claims room for one packet in the window. -/
def reserve (e : LockFreeEngine) : Except EngineError Unit × LockFreeEngine :=
  if e.inFlight < e.effectiveWindow then (.ok (), { e with inFlight := e.inFlight + 1 })
  else (.error (.windowFull e.inFlight.toNat e.effectiveWindow), e)

def unreserve (e : LockFreeEngine) : LockFreeEngine := { e with inFlight := e.inFlight - 1 }

/-- Puts a packet with a reservation into its slot; an occupied slot costs
the reservation. -/
def track (e : LockFreeEngine) (p : Packet) (now : Instant) :
    Except EngineError Unit × LockFreeEngine :=
  match e.table.tryInsert (keyOf p.seq) (.sent p now) with
  | .error _ => (.error (.slotCollision p.seq), e.unreserve)
  | .ok table => (.ok (), { { e with table }.raiseHighest p.seq with tally := e.tally.countSent })

/-- Records a packet before it goes out.  Only DATA is subject to flow
control and tracked; everything else passes. -/
def send (e : LockFreeEngine) (p : Packet) (now : Instant) :
    Except EngineError Unit × LockFreeEngine :=
  if ¬ p.isKind .data then (.ok (), e)
  else match e.reserve with
    | (.error err, e) => (.error err, e)
    | (.ok (), e) => e.track p now

/-- Numbers and records a payload.  The reservation comes first, so a full
window uses up no number; it is given back if the next number's slot is
still occupied. -/
def sendData (e : LockFreeEngine) (payload : Bytes) (now : Instant) :
    Except EngineError Packet × LockFreeEngine :=
  match e.reserve with
  | (.error err, e) => (.error err, e)
  | (.ok (), e) =>
    match e.numbering.allocateIf e.isVacant with
    | (none, numbering) =>
      let e := { e with numbering }.unreserve
      (.error (.windowFull e.inFlight.toNat e.effectiveWindow), e)
    | (some s, numbering) =>
      match { e with numbering }.track (.data s payload) now with
      | (.ok (), e) => (.ok (.data s payload), e)
      | (.error err, e) => (.error err, e)

def isUnacked (e : LockFreeEngine) (s : SeqNum) : Bool := (e.inspect s fun _ => ()).isSome

def retries? (e : LockFreeEngine) (s : SeqNum) : Option UInt32 := e.inspect s (·.retries)

/-- The state after the acknowledgement of a packet sent at `sentAt`. -/
def acknowledged (e : LockFreeEngine) (sentAt now : Instant) : LockFreeEngine :=
  (e.unreserve.updateRoundTrip (e.config.sampled · (.between sentAt now))).updateWindow
    e.config.grown

def handleAck (e : LockFreeEngine) (p : Packet) (now : Instant) :
    Except EngineError Bool × LockFreeEngine :=
  if ¬ p.hasFlag .ack then (.error .notAnAck, e)
  else
    let removal := e.table.removeIf (keyOf p.ack.prev) (·.packet.seq == p.ack.prev)
    match removal.getD (none, e.table) with
    | (none, table) => (unmatchedAck p.ack (e.numbering.highestIssued e.highest), { e with table })
    | (some u, table) => (.ok true, { e with table }.acknowledged u.sentAt now)

def onLoss (e : LockFreeEngine) : LockFreeEngine := e.updateWindow (·.onLoss)

/-- The packets to send again.  Finding any counts as one loss. -/
def timedOut (e : LockFreeEngine) (now : Instant) : List Packet × LockFreeEngine :=
  let timeout := e.roundTrip.timeout
  let (found, table) :=
    (e.table.visit fun u => (u.offer? now timeout, u.renewed now timeout)).getD ([], e.table)
  let offers := Offer.inOrder e.highest (found.filterMap id)
  if offers.isEmpty then ([], { e with table })
  else (offers.map (·.packet), { e with table, tally := e.tally.countOffers offers }.onLoss)

/-! ## Receiving -/

/-- The work that a received packet makes.  DATA from before the published
position makes none, and neither do packets other than DATA and SYN. -/
def workOf? (e : LockFreeEngine) (p : Packet) : Option Work :=
  match p.kind with
  | .data => if p.seq.isBefore e.published then none else some (.data p)
  | .syn => some (.resync p.seq.next (p.hasFlag .ack))
  | _ => none

def publish (e : LockFreeEngine) : LockFreeEngine := { e with published := e.ordering.position }

/-- Works off one item on the ordering buffer, and publishes the position if
that succeeds. -/
def process (e : LockFreeEngine) : Work → Released × LockFreeEngine
  | .data p =>
    match e.ordering.receive p with
    | (.duplicate, ordering) => (.ok [], { e with ordering }.publish)
    | (.overflow, ordering) => (.error (.bufferOverflow ordering.capacity), { e with ordering })
    | (.accepted released, ordering) =>
      (.ok released, { e with ordering, tally := e.tally.countReceived }.publish)
  | .resync target true =>
    let (released, ordering) := e.ordering.advance target
    (.ok released, { e with ordering }.publish)
  | .resync target false =>
    let (released, ordering) := e.ordering.resync target
    (.ok released, { e with ordering }.publish)

def acquire (e : LockFreeEngine) : Attempt LockFreeEngine :=
  if e.draining then .waits else .done { e with draining := true }

def release (e : LockFreeEngine) : LockFreeEngine := { e with draining := false }

/-- Files a result under a ticket. -/
def file (e : LockFreeEngine) (ticket : Nat) (result : Released) : LockFreeEngine :=
  { e with outcomes := e.outcomes ++ [(ticket, result)] }

/-- Works off up to `limit` queued items, oldest first. -/
def drain : (limit : Nat) → LockFreeEngine → LockFreeEngine
  | 0, e => e
  | limit + 1, e =>
    match e.inbound.pop with
    | (none, inbound) => { e with inbound }
    | (some item, inbound) =>
      let (result, e) := { e with inbound }.process item.work
      drain limit (e.file item.ticket result)

def drainQueue (e : LockFreeEngine) : LockFreeEngine := drain e.inbound.size e

/-- Works off an item of one's own under the drain flag, and then the queue. -/
def receiveWork (e : LockFreeEngine) (w : Work) : Attempt (Released × LockFreeEngine) :=
  e.acquire.map fun e =>
    let (result, e) := e.process w
    (result, e.drainQueue.release)

/-- Leaves an item for whoever holds the drain flag; hands it back if the
queue is full. -/
def enqueue (e : LockFreeEngine) (item : Inbound) : Except Inbound Unit × LockFreeEngine :=
  (e.inbound.push item).map id fun inbound => { e with inbound }

/-- Works off the queue without an item of one's own, as a caller does who
waits for a result. -/
def help (e : LockFreeEngine) : Attempt LockFreeEngine :=
  e.acquire.map fun e => e.drainQueue.release

/-- Takes the result filed under a ticket. -/
def collect (e : LockFreeEngine) (ticket : Nat) : Option Released × LockFreeEngine :=
  (e.outcomes.lookup ticket,
    { e with outcomes := e.outcomes.eraseP fun outcome => outcome.1 == ticket })

def receive (e : LockFreeEngine) (p : Packet) : Released × LockFreeEngine :=
  match e.workOf? p with
  | none => (.ok [], e)
  | some w => (e.receiveWork w).getD (.ok [], e)

/-- Receives `p` while a second caller comes with `q` and finds the flag
taken: the work on `q` is queued, and its result is filed by whoever drains
the queue. -/
def receivePair (e : LockFreeEngine) (p q : Packet) : Released × Released × LockFreeEngine :=
  let ticket := 0
  match (e.workOf? q).map fun w => e.enqueue ⟨w, ticket⟩ with
  | some (.ok (), e) =>
    let (first, e) := e.receive p
    let (second, e) := (e.help.getD e).collect ticket
    (first, second.getD (.ok []), e)
  | _ =>
    let (first, e) := e.receive p
    let (second, e) := e.receive q
    (first, second, e)

/-! ## Reporting -/

def stats (e : LockFreeEngine) : EngineStats where
  tally := e.tally
  window := e.window.size
  threshold := e.window.threshold
  roundTrip := e.roundTrip.smoothed
  timeout := e.roundTrip.timeout
  unacked := e.inFlight.toNat

end LockFreeEngine

end ReliableDatagram
