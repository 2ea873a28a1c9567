/-
Acknowledgements that come in another order.

The packet that an acknowledgement takes out of flight is told by its number,
and the window grows alike whichever packet it is.  So acknowledgements of two
packets do not meet; of several for one packet the first one counts, and they
are alike; and none of them makes a number that was never handed out into one
that was.  Only the estimate of the round trip is a mean that weighs the later
samples more.

With the estimate held fixed, an acknowledgement is a step into which no clock
enters.  Two of these steps can change places in every state that an engine
comes to, and a permutation is made of such exchanges.

`withRoundTrip` is what holds the estimate fixed: a call is that step, seen
through engines with the same estimate.  The step itself, `settled`, is defined on
engines of either kind, and that two of them commute is shown for each kind, on
the tracker by filters that change places and on the table by two slots that are
vacated.  It takes a state that an engine comes to, since two packets with one
number or in one slot would meet.

The answers go along with the packets.  An answer depends on whether the number is
in flight and on the highest number, and acknowledging another packet changes
neither; of two acknowledgements of one packet one is answered that it counted,
whichever comes first.
-/
import ReliableDatagram.Proofs.Engine.Bounds

namespace ReliableDatagram

/-! ## Acknowledgements that find their packet -/

namespace LockedEngine

variable {l : LockedEngine} {p : Packet}

theorem tracker_handleAck (hp : p.hasFlag .ack = true) (now : Instant) :
    (l.handleAck p now).2.tracker = (l.tracker.acknowledge p.ack).2 := by
  rw [handleAck, if_neg (not_not_intro hp)]
  split
  · next h => rw [h]
  · next h => rw [h]; rfl

theorem handleAck_of_find?_some {u : Unacked} (hp : p.hasFlag .ack = true)
    (hu : l.tracker.find? p.ack.prev = some u) (now : Instant) :
    l.handleAck p now =
      (.ok true, { l with tracker := (l.tracker.acknowledge p.ack).2 }.acknowledged u.sentAt
        now) := by
  rcases handleAck_cases l p now with ⟨answer, -, -, hnone⟩ | ⟨v, -, hv, heq⟩
  · rw [hnone hp] at hu
    cases hu
  · rw [hu, Option.some.injEq] at hv
    rw [heq, hv]

end LockedEngine

theorem SlotTable.vacate_comm {α : Type} (t : SlotTable α) (key other : Nat) :
    (t.vacate key).vacate other = (t.vacate other).vacate key := by
  simp only [vacate, slotOf, Assoc.erase, List.filter_filter, Bool.and_comm]

namespace LockFreeEngine

theorem Agrees.handleAck_of_find?_some {f : LockFreeEngine} {l : LockedEngine} (h : f.Agrees l)
    {p : Packet} {u : Unacked} (hp : p.hasFlag .ack = true)
    (hu : l.tracker.find? p.ack.prev = some u) (now : Instant) :
    f.handleAck p now =
      (.ok true, { f with table := f.table.vacate (keyOf p.ack.prev) }.acknowledged u.sentAt
        now) := by
  have hremove := h.table.removeIf_of_find?_some h.sound.tracker hu
  rw [LockFreeEngine.handleAck, if_neg (not_not_intro hp)]
  simp only [keyOf, hremove, Attempt.getD]

-- for any word, since the kernel would compute with a packed one
theorem isUnacked_withBits (f : LockFreeEngine) (bits : UInt64) (s : SeqNum) :
    { f with roundTripBits := bits }.isUnacked s = f.isUnacked s := rfl

theorem highestIssued_withBits (f : LockFreeEngine) (bits : UInt64) :
    f.numbering.highestIssued { f with roundTripBits := bits }.highest =
      f.numbering.highestIssued f.highest := rfl

end LockFreeEngine

namespace Engine

/-! ## Steps without a clock -/

/-- An engine with another estimate of the round trip. -/
def withRoundTrip (e : Engine) (r : RoundTrip) : Engine :=
  match e with
  | .locked e => .locked { e with roundTrip := r }
  | .lockFree e => .lockFree { e with roundTripBits := r.toBits }

/-- The latest number that was handed out or recorded. -/
def highestIssued : Engine → SeqNum
  | .locked e => e.numbering.highestIssued e.tracker.highest
  | .lockFree e => e.numbering.highestIssued e.highest

/-- Takes the packet with a number out of flight, and makes no sample of it. -/
def settle (s : SeqNum) : Engine → Engine
  | .locked e => .locked { e with
      tracker := { e.tracker with entries := e.tracker.entries.filter (·.packet.seq != s) }
      window := e.config.grown e.window }
  | .lockFree e => .lockFree
      ({ e with table := e.table.vacate (LockFreeEngine.keyOf s) }.unreserve.updateWindow
        e.config.grown)

/-- Whether a packet acknowledges one in flight. -/
def settles (e : Engine) (p : Packet) : Bool := p.hasFlag .ack && e.isUnacked p.ack.prev

/-- The state after a packet given to the engine as an acknowledgement. -/
def settled (e : Engine) (p : Packet) : Engine := if e.settles p then e.settle p.ack.prev else e

def ackAnswer (e : Engine) (p : Packet) : Except EngineError Bool :=
  if ¬ p.hasFlag .ack then .error .notAnAck
  else if e.isUnacked p.ack.prev then .ok true
  else unmatchedAck p.ack e.highestIssued

def settledAll (e : Engine) : List Packet → Engine
  | [] => e
  | p :: ps => (e.settled p).settledAll ps

def ackAnswers (e : Engine) : List Packet → List (Except EngineError Bool)
  | [] => []
  | p :: ps => e.ackAnswer p :: (e.settled p).ackAnswers ps

section WithRoundTrip

variable (e : Engine) (r : RoundTrip) (s : SeqNum) (p : Packet)

@[simp] theorem isUnacked_withRoundTrip : (e.withRoundTrip r).isUnacked s = e.isUnacked s := by
  cases e with
  | locked e => rfl
  | lockFree f => exact f.isUnacked_withBits r.toBits s

@[simp] theorem highestIssued_withRoundTrip :
    (e.withRoundTrip r).highestIssued = e.highestIssued := by
  cases e with
  | locked e => rfl
  | lockFree f => exact f.highestIssued_withBits r.toBits

@[simp] theorem tracked_withRoundTrip : (e.withRoundTrip r).tracked = e.tracked := by
  cases e with
  | locked e => rfl
  | lockFree f => simp only [withRoundTrip, tracked]

@[simp] theorem window_withRoundTrip : (e.withRoundTrip r).window = e.window := by
  cases e with
  | locked e => rfl
  | lockFree f => simp only [withRoundTrip, window, LockFreeEngine.window]

@[simp] theorem unacked_withRoundTrip : (e.withRoundTrip r).stats.unacked = e.stats.unacked := by
  cases e with
  | locked e => rfl
  | lockFree f => simp only [withRoundTrip, stats, LockFreeEngine.stats]

@[simp] theorem tally_withRoundTrip : (e.withRoundTrip r).stats.tally = e.stats.tally := by
  cases e with
  | locked e => rfl
  | lockFree f => simp only [withRoundTrip, stats, LockFreeEngine.stats]

@[simp] theorem highestIssued_settled : (e.settled p).highestIssued = e.highestIssued := by
  rw [settled]
  split
  · cases e with
    | locked e => rfl
    | lockFree f => rfl
  · rfl

@[simp] theorem settles_withRoundTrip : (e.withRoundTrip r).settles p = e.settles p := by
  rw [settles, settles, isUnacked_withRoundTrip]

@[simp] theorem ackAnswer_withRoundTrip : (e.withRoundTrip r).ackAnswer p = e.ackAnswer p := by
  simp only [ackAnswer, isUnacked_withRoundTrip, highestIssued_withRoundTrip]

end WithRoundTrip

theorem settle_comm (e : Engine) (s t : SeqNum) :
    (e.settle s).settle t = (e.settle t).settle s := by
  cases e with
  | locked e => simp only [settle, List.filter_filter, Bool.and_comm]
  | lockFree f =>
      simp only [settle, LockFreeEngine.unreserve, LockFreeEngine.updateWindow,
        f.table.vacate_comm (LockFreeEngine.keyOf s)]
      rfl

section Follows

variable {e : Engine} {l : LockedEngine} {p : Packet}

theorem Follows.highestIssued (h : e.Follows l) :
    e.highestIssued = l.numbering.highestIssued l.tracker.highest := by
  cases e with
  | locked e => rw [← h.1, Engine.highestIssued]
  | lockFree f =>
      rw [Engine.highestIssued, LockFreeEngine.Agrees.numbering h,
        LockFreeEngine.Agrees.highest h]

theorem Follows.answer_handleAck (h : e.Follows l) (p : Packet) (now : Instant) :
    (e.handleAck p now).1 = e.ackAnswer p := by
  rw [(h.handleAck p now).1, ackAnswer, h.isUnacked, h.highestIssued, LockedEngine.handleAck]
  split
  · rfl
  · rw [LockedEngine.isUnacked, Tracker.isUnacked, Tracker.acknowledge]
    cases l.tracker.find? p.ack.prev with
    | none => rfl
    | some u => rfl

theorem ackAnswer_ne_of_not_settles (h : e.settles p = false) : e.ackAnswer p ≠ .ok true := by
  rw [settles] at h
  rw [ackAnswer, unmatchedAck]
  grind

/-- What a packet changes beside the estimate. -/
theorem Follows.handleAck_withRoundTrip (h : e.Follows l) (p : Packet) (now : Instant)
    (r : RoundTrip) : (e.handleAck p now).2.withRoundTrip r = (e.withRoundTrip r).settled p := by
  rw [settled, settles_withRoundTrip]
  cases hs : e.settles p with
  | false =>
      rw [h.handleAck_of_ne (by rw [h.answer_handleAck]; exact ackAnswer_ne_of_not_settles hs)]
      rfl
  | true =>
      rw [settles, Bool.and_eq_true, h.isUnacked] at hs
      obtain ⟨hp, hfind⟩ := hs
      obtain ⟨u, hu⟩ := Option.isSome_iff_exists.mp hfind
      cases e with
      | locked e =>
          obtain ⟨rfl, hsound⟩ := h
          rw [Engine.handleAck, LockedEngine.handleAck_of_find?_some hp hu,
            hsound.tracker.acknowledge_eq]
          rfl
      | lockFree f =>
          rw [Engine.handleAck, LockFreeEngine.Agrees.handleAck_of_find?_some h hp hu]
          simp only [Prod.map, Engine.withRoundTrip, settle, LockFreeEngine.acknowledged,
            LockFreeEngine.unreserve, LockFreeEngine.updateRoundTrip,
            LockFreeEngine.updateWindow, LockFreeEngine.window, if_true]

theorem Follows.isUnacked_settled (h : e.Follows l) (r : RoundTrip) (hp : p.hasFlag .ack = true)
    (s : SeqNum) :
    ((e.withRoundTrip r).settled p).isUnacked s = (e.isUnacked s && s != p.ack.prev) := by
  rw [← h.handleAck_withRoundTrip p 0 r, isUnacked_withRoundTrip, (h.handleAck p 0).2.isUnacked,
    LockedEngine.isUnacked, LockedEngine.tracker_handleAck hp,
    Tracker.isUnacked_acknowledge h.sound.tracker, h.isUnacked]
  rfl

/-! ## Exchanging two packets -/

theorem settled_of_not_hasFlag (hp : p.hasFlag .ack = false) (e : Engine) : e.settled p = e := by
  rw [settled, settles, hp]
  rfl

theorem settled_of_hasFlag (hp : p.hasFlag .ack = true) (e : Engine) :
    e.settled p = if e.isUnacked p.ack.prev then e.settle p.ack.prev else e := by
  rw [settled, settles, hp, Bool.true_and]

theorem ackAnswer_of_not_hasFlag (hp : p.hasFlag .ack = false) (e : Engine) :
    e.ackAnswer p = .error .notAnAck := by
  rw [ackAnswer, hp]
  rfl

theorem ackAnswer_of_hasFlag (hp : p.hasFlag .ack = true) (e : Engine) :
    e.ackAnswer p = if e.isUnacked p.ack.prev then .ok true
      else unmatchedAck p.ack e.highestIssued := by
  rw [ackAnswer, if_neg (not_not_intro hp)]

theorem Follows.settled_comm (h : e.Follows l) (r : RoundTrip) (p q : Packet) :
    ((e.withRoundTrip r).settled p).settled q = ((e.withRoundTrip r).settled q).settled p := by
  cases hp : p.hasFlag .ack with
  | false => rw [settled_of_not_hasFlag hp, settled_of_not_hasFlag hp]
  | true =>
      cases hq : q.hasFlag .ack with
      | false => rw [settled_of_not_hasFlag hq, settled_of_not_hasFlag hq]
      | true =>
          rw [settled_of_hasFlag hq ((e.withRoundTrip r).settled p), h.isUnacked_settled r hp,
            settled_of_hasFlag hp ((e.withRoundTrip r).settled q), h.isUnacked_settled r hq,
            settled_of_hasFlag hp, settled_of_hasFlag hq, isUnacked_withRoundTrip,
            isUnacked_withRoundTrip]
          -- whether one of them finds its packet is up to the other if they are about one number
          by_cases hsame : q.ack.prev = p.ack.prev
          · rw [hsame]
          · rw [bne_iff_ne.mpr hsame, bne_iff_ne.mpr (Ne.symm hsame), Bool.and_true,
              Bool.and_true]
            cases e.isUnacked p.ack.prev with
            | false => rfl
            | true =>
                cases e.isUnacked q.ack.prev with
                | false => rfl
                | true => exact settle_comm _ _ _

/-- The answer to a packet is the same behind a packet about another number. -/
theorem Follows.ackAnswer_settled (h : e.Follows l) (r : RoundTrip) {q : Packet}
    (hp : p.hasFlag .ack = true → q.hasFlag .ack = true → q.ack ≠ p.ack) :
    ((e.withRoundTrip r).settled p).ackAnswer q = (e.withRoundTrip r).ackAnswer q := by
  cases hpf : p.hasFlag .ack with
  | false => rw [settled_of_not_hasFlag hpf]
  | true =>
      cases hqf : q.hasFlag .ack with
      | false => rw [ackAnswer_of_not_hasFlag hqf, ackAnswer_of_not_hasFlag hqf]
      | true =>
          have hne : q.ack.prev ≠ p.ack.prev := by
            intro heq
            apply hp hpf hqf
            rw [← SeqNum.prev_next q.ack, heq, SeqNum.prev_next]
          rw [ackAnswer_of_hasFlag hqf, ackAnswer_of_hasFlag hqf, h.isUnacked_settled r hpf,
            isUnacked_withRoundTrip, highestIssued_settled, bne_iff_ne.mpr hne, Bool.and_true]

theorem Follows.ackAnswers_comm (h : e.Follows l) (r : RoundTrip) (p q : Packet) :
    [(e.withRoundTrip r).ackAnswer p, ((e.withRoundTrip r).settled p).ackAnswer q].Perm
      [(e.withRoundTrip r).ackAnswer q, ((e.withRoundTrip r).settled q).ackAnswer p] := by
  by_cases hsame : p.hasFlag .ack = true ∧ q.hasFlag .ack = true ∧ q.ack = p.ack
  · -- one of them is answered yes, if any, and it is the first one
    obtain ⟨hp, hq, hack⟩ := hsame
    rw [ackAnswer_of_hasFlag hp, ackAnswer_of_hasFlag hp, ackAnswer_of_hasFlag hq,
      ackAnswer_of_hasFlag hq, h.isUnacked_settled r hp, h.isUnacked_settled r hq, hack,
      highestIssued_settled, highestIssued_settled]
  · rw [h.ackAnswer_settled r fun hp hq hack => hsame ⟨hp, hq, hack⟩,
      h.ackAnswer_settled r fun hq hp hack => hsame ⟨hp, hq, hack.symm⟩]
    exact .swap _ _ _

/-- So they do in any order, however many they are. -/
theorem Follows.settledAll_perm (h : e.Follows l) (r : RoundTrip) {ps qs : List Packet}
    (hperm : ps.Perm qs) :
    (e.withRoundTrip r).settledAll ps = (e.withRoundTrip r).settledAll qs ∧
      ((e.withRoundTrip r).ackAnswers ps).Perm ((e.withRoundTrip r).ackAnswers qs) := by
  induction hperm generalizing e l with
  | nil => exact ⟨rfl, .refl _⟩
  | cons p _ ih =>
      obtain ⟨hstate, hanswers⟩ := ih (h.handleAck p 0).2
      rw [h.handleAck_withRoundTrip] at hstate hanswers
      exact ⟨hstate, hanswers.cons _⟩
  | swap p q ps =>
      have hstate := h.settled_comm r q p
      refine ⟨congrArg (settledAll · ps) hstate, ?_⟩
      simp only [ackAnswers, hstate]
      exact (h.ackAnswers_comm r q p).append_right _
  | trans _ _ ih₁ ih₂ =>
      obtain ⟨hstate₁, hanswers₁⟩ := ih₁ h
      obtain ⟨hstate₂, hanswers₂⟩ := ih₂ h
      exact ⟨hstate₁.trans hstate₂, hanswers₁.trans hanswers₂⟩

/-! ## The calls themselves -/

/-- Packets given to an engine as acknowledgements, each at its time. -/
def ackCalls (batch : List (Packet × Instant)) : List EngineCall :=
  batch.map fun b => .handleAck b.1 b.2

theorem Follows.after_ackCalls (h : e.Follows l) (batch : List (Packet × Instant))
    (r : RoundTrip) :
    (e.after (ackCalls batch)).withRoundTrip r =
      (e.withRoundTrip r).settledAll (batch.map Prod.fst) := by
  induction batch generalizing e l with
  | nil => rfl
  | cons b batch ih =>
      have hrest := ih (h.handleAck b.1 b.2).2
      rw [h.handleAck_withRoundTrip] at hrest
      exact hrest

theorem Follows.answers_ackCalls (h : e.Follows l) (batch : List (Packet × Instant))
    (r : RoundTrip) :
    e.answers (ackCalls batch) =
      ((e.withRoundTrip r).ackAnswers (batch.map Prod.fst)).map .acknowledged := by
  induction batch generalizing e l with
  | nil => rfl
  | cons b batch ih =>
      have hrest := ih (h.handleAck b.1 b.2).2
      rw [h.handleAck_withRoundTrip] at hrest
      have hfirst := (h.answer_handleAck b.1 b.2).trans (ackAnswer_withRoundTrip e r b.1).symm
      exact List.cons_eq_cons.mpr ⟨congrArg EngineAnswer.acknowledged hfirst, hrest⟩

end Follows

/-! ## Main result -/

/-- Two engines in one state but for their estimates of the round trip. -/
structure SameButEstimate (a b : Engine) : Prop where
  tracked : a.tracked = b.tracked
  inFlight : a.stats.unacked = b.stats.unacked
  window : a.window = b.window
  tally : a.stats.tally = b.stats.tally
  /-- Whatever else there is; with one estimate the two are one engine. -/
  rest : ∀ r, a.withRoundTrip r = b.withRoundTrip r

theorem sameButEstimate_of_withRoundTrip {a b : Engine}
    (h : ∀ r, a.withRoundTrip r = b.withRoundTrip r) : a.SameButEstimate b := by
  have hzero := h ⟨0, 0⟩
  refine ⟨?_, ?_, ?_, ?_, h⟩
  · simpa using congrArg tracked hzero
  · simpa using congrArg (·.stats.unacked) hzero
  · simpa using congrArg window hzero
  · simpa using congrArg (·.stats.tally) hzero

/-- In every state that an engine of either kind comes to, packets given to it as acknowledgements
in one order or another, at whatever times, get the same answers, each as often, and lead to one
state.  Only the estimate of the round trip, and the timeout with it, can tell the orders apart. -/
theorem ackCalls_perm {kind : EngineKind} {config : Reliability} {e : Engine}
    (hnew : new kind config = .ok e) (calls : List EngineCall)
    {batch batch' : List (Packet × Instant)}
    (hperm : (batch.map Prod.fst).Perm (batch'.map Prod.fst)) :
    ((e.after calls).answers (ackCalls batch)).Perm ((e.after calls).answers (ackCalls batch')) ∧
      ((e.after calls).after (ackCalls batch)).SameButEstimate
        ((e.after calls).after (ackCalls batch')) := by
  obtain ⟨-, hf⟩ := follows_start hnew
  obtain ⟨l, hl⟩ := hf.after calls
  constructor
  · rw [hl.answers_ackCalls batch config.firstRoundTrip,
      hl.answers_ackCalls batch' config.firstRoundTrip]
    exact (hl.settledAll_perm _ hperm).2.map _
  · refine sameButEstimate_of_withRoundTrip fun r => ?_
    rw [hl.after_ackCalls, hl.after_ackCalls, (hl.settledAll_perm r hperm).1]

/-- Settings with room for two packets in flight from the start, and for four in the end. -/
def fromTwoPackets : Reliability where
  windowSize := 4
  initialWindow := 2
  tableSize := 16
  receiveCapacity := 1

/-- An acknowledgement of each of two packets, one of them twice, one of a packet never sent, and a
packet without the flag. -/
def mixedAcks : List (Packet × Instant) :=
  [(.acknowledge ⟨2⟩, 30000000), (.acknowledge ⟨3⟩, 90000000), (.acknowledge ⟨3⟩, 20000000),
    (.acknowledge ⟨9⟩, 0), (.data ⟨1⟩ [], 0)]

theorem ackCalls_perm_mixedAcks :
    ∃ e, new .lockFree fromTwoPackets = .ok e ∧
      (mixedAcks.map Prod.fst).Perm (mixedAcks.reverse.map Prod.fst) ∧
      let sending := e.after [.sendData [7] 0, .sendData [8] 0]
      let first := sending.after (ackCalls mixedAcks)
      let second := sending.after (ackCalls mixedAcks.reverse)
      (sending.answers (ackCalls mixedAcks)).Perm (sending.answers (ackCalls mixedAcks.reverse)) ∧
        first.SameButEstimate second ∧ first.tracked = [] ∧ first.window.size = 4 ∧
        first.stats.roundTrip ≠ second.stats.roundTrip := by
  obtain ⟨e, hnew⟩ : ∃ e, new .lockFree fromTwoPackets = .ok e := ⟨_, rfl⟩
  have hperm : (mixedAcks.map Prod.fst).Perm (mixedAcks.reverse.map Prod.fst) :=
    mixedAcks.reverse_perm.symm.map _
  obtain ⟨hanswers, hsame⟩ :=
    ackCalls_perm hnew [.sendData [7] 0, .sendData [8] 0] hperm
  refine ⟨e, hnew, hperm, hanswers, hsame, ?_, ?_, ?_⟩
  · cases hnew
    decide +kernel
  · cases hnew
    decide +kernel
  · cases hnew
    decide +kernel

end Engine

end ReliableDatagram
