/-
Both engines answer every sequence of calls alike.

`Follows` relates an engine of either kind to the locked engine whose state
it has: a locked engine to itself, a lock-free one to the engine it agrees
with.  There is one lemma per operation.  Each says that the answers are equal
and that the states stay related, also where the operation fails, so that
whatever is proved about the locked engine holds for the kind that a
connection really runs.

A call is an operation with its arguments and the time at which it is made, and
its answer is all that the caller gets, including the answers to questions that
change nothing.  With calls as data a run is a list, and the induction over it
needs one lemma, `Follows.call`, that collects the operations.

The relation is a simulation in one direction, from the engine that runs to the
locked one that it follows.  Both are functions, so nothing more is needed for
equal answers, and every later result about runs is proved the same way: by a
lemma about the locked engine and this relation.
-/
import ReliableDatagram.Engine.Choice
import ReliableDatagram.Proofs.Engine.Agreement

namespace ReliableDatagram

/-- A call to an engine, with the clock as its caller reads it. -/
inductive EngineCall where
  | nextNumber
  | send (packet : Packet) (now : Instant)
  | sendData (payload : Bytes) (now : Instant)
  | handleAck (packet : Packet) (now : Instant)
  | receive (packet : Packet)
  | timedOut (now : Instant)
  | onLoss
  | isUnacked (seq : SeqNum)
  | retries (seq : SeqNum)
  | budget
  | stats
deriving DecidableEq

inductive EngineAnswer where
  | nothing
  | number (seq : SeqNum)
  | sent (result : Except EngineError Unit)
  | numbered (result : Except EngineError Packet)
  | acknowledged (result : Except EngineError Bool)
  | released (result : Released)
  | overdue (packets : List Packet)
  | unacked (answer : Bool)
  | retries (count : Option UInt32)
  | budget (count : Nat)
  | stats (stats : EngineStats)

namespace Engine

def call (e : Engine) : EngineCall → EngineAnswer × Engine
  | .nextNumber => e.nextNumber.map .number id
  | .send p now => (e.send p now).map .sent id
  | .sendData payload now => (e.sendData payload now).map .numbered id
  | .handleAck p now => (e.handleAck p now).map .acknowledged id
  | .receive p => (e.receive p).map .released id
  | .timedOut now => (e.timedOut now).map .overdue id
  | .onLoss => (.nothing, e.onLoss)
  | .isUnacked s => (.unacked (e.isUnacked s), e)
  | .retries s => (.retries (e.retries? s), e)
  | .budget => (.budget e.budget, e)
  | .stats => (.stats e.stats, e)

def answers (e : Engine) : List EngineCall → List EngineAnswer
  | [] => []
  | c :: rest => (e.call c).1 :: (e.call c).2.answers rest

/-- An engine of either kind in the state of a locked one. -/
def Follows : Engine → LockedEngine → Prop
  | .locked e, l => e = l ∧ l.Sound
  | .lockFree f, l => f.Agrees l

section Follows

variable {e : Engine} {l : LockedEngine}

/-! ## Sending -/

theorem Follows.nextNumber (h : e.Follows l) :
    e.nextNumber.1 = l.nextNumber.1 ∧ e.nextNumber.2.Follows l.nextNumber.2 := by
  cases e with
  | locked e =>
      obtain ⟨rfl, hs⟩ := h
      exact ⟨rfl, rfl, { hs with }⟩
  | lockFree f => exact LockFreeEngine.Agrees.nextNumber h

theorem Follows.send (h : e.Follows l) (p : Packet) (now : Instant) :
    (e.send p now).1 = (l.send p now).1 ∧ (e.send p now).2.Follows (l.send p now).2 := by
  cases e with
  | locked e =>
      obtain ⟨rfl, hs⟩ := h
      exact ⟨rfl, rfl, hs.send p now⟩
  | lockFree f => exact LockFreeEngine.Agrees.send h p now

theorem Follows.sendData (h : e.Follows l) (payload : Bytes) (now : Instant) :
    (e.sendData payload now).1 = (l.sendData payload now).1 ∧
      (e.sendData payload now).2.Follows (l.sendData payload now).2 := by
  cases e with
  | locked e =>
      obtain ⟨rfl, hs⟩ := h
      exact ⟨rfl, rfl, hs.sendData payload now⟩
  | lockFree f => exact LockFreeEngine.Agrees.sendData h payload now

/-! ## Acknowledgements and losses -/

theorem Follows.handleAck (h : e.Follows l) (p : Packet) (now : Instant) :
    (e.handleAck p now).1 = (l.handleAck p now).1 ∧
      (e.handleAck p now).2.Follows (l.handleAck p now).2 := by
  cases e with
  | locked e =>
      obtain ⟨rfl, hs⟩ := h
      exact ⟨rfl, rfl, hs.handleAck p now⟩
  | lockFree f => exact LockFreeEngine.Agrees.handleAck h p now

theorem Follows.timedOut (h : e.Follows l) (now : Instant) :
    (e.timedOut now).1 = (l.timedOut now).1 ∧
      (e.timedOut now).2.Follows (l.timedOut now).2 := by
  cases e with
  | locked e =>
      obtain ⟨rfl, hs⟩ := h
      exact ⟨rfl, rfl, hs.timedOut now⟩
  | lockFree f => exact LockFreeEngine.Agrees.timedOut h now

theorem Follows.onLoss (h : e.Follows l) : e.onLoss.Follows l.onLoss := by
  cases e with
  | locked e =>
      obtain ⟨rfl, hs⟩ := h
      exact ⟨rfl, hs.onLoss⟩
  | lockFree f => exact LockFreeEngine.Agrees.onLoss h

/-! ## Receiving -/

theorem Follows.receive (h : e.Follows l) (p : Packet) :
    (e.receive p).1 = (l.receive p).1 ∧ (e.receive p).2.Follows (l.receive p).2 := by
  cases e with
  | locked e =>
      obtain ⟨rfl, hs⟩ := h
      exact ⟨rfl, rfl, hs.receive p⟩
  | lockFree f => exact LockFreeEngine.Agrees.receive h p

/-! ## Questions -/

theorem Follows.isUnacked (h : e.Follows l) (s : SeqNum) : e.isUnacked s = l.isUnacked s := by
  cases e with
  | locked e => rw [← h.1, Engine.isUnacked]
  | lockFree f => exact LockFreeEngine.Agrees.isUnacked h s

theorem Follows.retries? (h : e.Follows l) (s : SeqNum) : e.retries? s = l.retries? s := by
  cases e with
  | locked e => rw [← h.1, Engine.retries?]
  | lockFree f => exact LockFreeEngine.Agrees.retries? h s

theorem Follows.budget (h : e.Follows l) : e.budget = l.budget := by
  cases e with
  | locked e => rw [← h.1, Engine.budget]
  | lockFree f => exact LockFreeEngine.Agrees.budget h

theorem Follows.stats (h : e.Follows l) : e.stats = l.stats := by
  cases e with
  | locked e => rw [← h.1, Engine.stats]
  | lockFree f => exact LockFreeEngine.Agrees.stats h

theorem Follows.ordering (h : e.Follows l) : e.ordering = l.ordering := by
  cases e with
  | locked e => rw [← h.1, Engine.ordering]
  | lockFree f => exact LockFreeEngine.Agrees.ordering h

/-! ## Any call -/

/-- On related states a call has one answer and leads to related states. -/
theorem Follows.call (h : e.Follows l) (c : EngineCall) :
    ∃ l', (Engine.locked l).call c = ((e.call c).1, .locked l') ∧
      (e.call c).2.Follows l' := by
  cases c with
  | nextNumber =>
      obtain ⟨ha, hf⟩ := h.nextNumber
      exact ⟨_, congrArg (fun a => (EngineAnswer.number a, _)) ha.symm, hf⟩
  | send p now =>
      obtain ⟨ha, hf⟩ := h.send p now
      exact ⟨_, congrArg (fun a => (EngineAnswer.sent a, _)) ha.symm, hf⟩
  | sendData payload now =>
      obtain ⟨ha, hf⟩ := h.sendData payload now
      exact ⟨_, congrArg (fun a => (EngineAnswer.numbered a, _)) ha.symm, hf⟩
  | handleAck p now =>
      obtain ⟨ha, hf⟩ := h.handleAck p now
      exact ⟨_, congrArg (fun a => (EngineAnswer.acknowledged a, _)) ha.symm, hf⟩
  | receive p =>
      obtain ⟨ha, hf⟩ := h.receive p
      exact ⟨_, congrArg (fun a => (EngineAnswer.released a, _)) ha.symm, hf⟩
  | timedOut now =>
      obtain ⟨ha, hf⟩ := h.timedOut now
      exact ⟨_, congrArg (fun a => (EngineAnswer.overdue a, _)) ha.symm, hf⟩
  | onLoss => exact ⟨_, rfl, h.onLoss⟩
  | isUnacked s =>
      exact ⟨l, congrArg (fun a => (EngineAnswer.unacked a, _)) (h.isUnacked s).symm, h⟩
  | retries s =>
      exact ⟨l, congrArg (fun a => (EngineAnswer.retries a, _)) (h.retries? s).symm, h⟩
  | budget => exact ⟨l, congrArg (fun a => (EngineAnswer.budget a, _)) h.budget.symm, h⟩
  | stats => exact ⟨l, congrArg (fun a => (EngineAnswer.stats a, _)) h.stats.symm, h⟩

theorem Follows.answers (calls : List EngineCall) :
    ∀ {e : Engine} {l : LockedEngine}, e.Follows l →
      (Engine.locked l).answers calls = e.answers calls := by
  induction calls with
  | nil => exact fun _ => rfl
  | cons c rest ih =>
      intro e l h
      obtain ⟨l', hcall, hf⟩ := h.call c
      simp only [Engine.answers, hcall]
      rw [ih hf]

end Follows

/-! ## The start -/

theorem follows_start {kind : EngineKind} {config : Reliability} {e : Engine}
    (h : Engine.new kind config = .ok e) :
    config.Valid ∧ e.Follows (LockedEngine.start config) := by
  unfold Engine.new at h
  split at h
  · cases h
  · rename_i hv
    refine ⟨hv, ?_⟩
    cases kind with
    | locked =>
        cases hl : LockedEngine.new config with
        | error fault =>
            rw [hl] at h
            cases h
        | ok l =>
            rw [hl] at h
            cases h
            exact ⟨LockedEngine.eq_start_of_new hl, LockedEngine.sound_start hv⟩
    | lockFree =>
        cases hf : LockFreeEngine.allocate config with
        | error fault =>
            rw [hf] at h
            cases h
        | ok f =>
            rw [hf] at h
            cases h
            exact LockFreeEngine.agrees_of_allocate hv hf

/-- The two kinds cannot be told apart by calls made one after the other. -/
theorem answers_locked_eq_lockFree {config : Reliability} (h : config.Valid)
    (hs : config.tableSize ≤ 0x100000000)
    (hc : config.receiveCapacity ≤ 0x8000000000000000) :
    ∃ l f, LockedEngine.new config = .ok l ∧ LockFreeEngine.new config = .ok f ∧
      ∀ calls, (Engine.locked l).answers calls = (Engine.lockFree f).answers calls := by
  obtain ⟨f, hf, ha⟩ := LockFreeEngine.exists_new h hc
  refine ⟨.start config, f, LockedEngine.new_eq_start h hs, hf, ?_⟩
  intro calls
  exact Follows.answers calls (e := .lockFree f) ha

/-- The settings that a connection has if none are given. -/
theorem answers_locked_eq_lockFree_default :
    (({} : Reliability).Valid ∧ ({} : Reliability).tableSize ≤ 0x100000000 ∧
      ({} : Reliability).receiveCapacity ≤ 0x8000000000000000) ∧
    ∃ l f, LockedEngine.new {} = .ok l ∧ LockFreeEngine.new {} = .ok f ∧
      ∀ calls, (Engine.locked l).answers calls = (Engine.lockFree f).answers calls :=
  ⟨by decide, answers_locked_eq_lockFree (by decide) (by decide) (by decide)⟩

end Engine

end ReliableDatagram
