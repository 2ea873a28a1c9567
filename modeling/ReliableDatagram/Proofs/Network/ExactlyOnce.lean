/-
Exactly-once delivery in order.

In the data phase both directions are orderly and complete in every state
that a run reaches: what an application got is the front of what the peer's
application sent, and every number sent is in flight or has arrived.

A SYN starts a connection anew, also as a late copy.  A direction survives
that in two cases: its sender starts anew before the first payload that its
application sends, or its receiver before the first that it dispatches.

Both results are an induction on the run.  It carries an exchange that the
network stands for and the log records, with an invariant of the exchange: for the
data phase that it is sound in both directions, which covers the wire and both
trackers; for a direction that is started in time only that this direction is in
order, since a restart may lose what the other one had in flight.  A move is any
number of steps of the exchange or sets a connection up, so the invariants need no
look at addresses, bytes or connection tables.
-/
import ReliableDatagram.Proofs.Exchange.DataPhase
import ReliableDatagram.Proofs.Network.Simulation

namespace ReliableDatagram

namespace Pair

/-- Nobody connects. -/
def DataPhase (_ : Network) (_ : Log) (m : Move) : Prop := m.connects? = none

instance (net : Network) (log : Log) (m : Move) : Decidable (DataPhase net log m) :=
  inferInstanceAs (Decidable (_ = _))

/-- Each side connects once at most, and before its first send; no datagram is damaged. -/
def ConnectsEarly (_ : Network) (log : Log) (m : Move) : Prop :=
  (∀ s ∈ m.connects?, ∀ h ∈ log, h.move.calls? ≠ some s) ∧ m.damage = .none

instance (net : Network) (log : Log) (m : Move) : Decidable (ConnectsEarly net log m) :=
  inferInstanceAs (Decidable (_ ∧ _))

/-- For the direction from `s`: the sender's connection is started anew only before its first
payload, and the receiver's only before it dispatches the first. -/
def InTime (S : Pair) (s : Side) (net : Network) (log : Log) (m : Move) : Prop :=
  (S.restarts net m s = true → log.accepted s = []) ∧
    (S.restarts net m s.other = true → log.dispatched s.other = [])

instance (S : Pair) (s : Side) (net : Network) (log : Log) (m : Move) :
    Decidable (S.InTime s net log m) :=
  inferInstanceAs (Decidable (_ ∧ _))

section Runs

variable {S : Pair} {net : Network} {log : Log} {x : Exchange}

/-! ## What a run leads to -/

theorem accepted_le_append (log : Log) (h : Happening) (s : Side) :
    (log.accepted s).length ≤ (Log.accepted (log ++ [h]) s).length := by
  rw [Log.accepted_append, List.length_append]
  exact Nat.le_add_right _ _

theorem Shows.bounded (h : S.Shows net log x)
    (hn : ∀ s, (log.accepted s).length < 0x80000000) : x.Bounded := by
  intro s
  rw [← h.records.accepted]
  exact hn s

theorem shows_start (S : Pair) :
    S.Shows S.start [] (.start fun s => (S.config s).reliability) :=
  ⟨S.stands_start, Log.records_start _⟩

theorem reliability_valid (S : Pair) (s : Side) : (S.config s).reliability.Valid :=
  (S.valid s).checks.2.2.2

theorem Run.sound (run : S.Run DataPhase net log) :
    (∀ s, (log.accepted s).length < 0x80000000) →
      ∃ x, S.Shows net log x ∧ x.Sound S.Handles := by
  induction run with
  | start => exact fun _ => ⟨_, S.shows_start, Exchange.sound_start S.reliability_valid S.first⟩
  | @move net log m _ hm ih =>
      intro hn
      obtain ⟨x, hs, hx⟩ := ih fun s => Nat.lt_of_le_of_lt (accepted_le_append log _ s) (hn s)
      obtain ⟨x', hstep, hs'⟩ := hs.play hx.usual m
      rcases hstep with hsteps | ⟨-, -, -, ⟨s, hcon⟩ | ⟨q, hq, hk⟩⟩
      · exact ⟨x', hs', hx.steps hsteps (hs'.bounded hn)⟩
      · rw [hcon] at hm
        cases hm
      · exact absurd hk (hx.complete.quiet q hq)

theorem Run.inOrder {s : Side} (run : S.Run (S.InTime s) net log) :
    (log.accepted s).length < 0x80000000 → ∃ x, S.Shows net log x ∧ x.Usual ∧ x.InOrder s := by
  induction run with
  | start =>
      refine fun _ => ⟨_, S.shows_start, Exchange.usual_start, ?_⟩
      exact Exchange.inOrder_start (S.reliability_valid s) (S.first s.other)
  | @move net log m _ hm ih =>
      intro hn
      have hn' := Nat.lt_of_le_of_lt (accepted_le_append log _ s) hn
      obtain ⟨x, hs, hu, ho⟩ := ih hn'
      obtain ⟨x', hstep, hs'⟩ := hs.play hu m
      rcases hstep with hsteps | ⟨restarted, hx, hr, -⟩
      · refine ⟨x', hs', hu.steps hsteps, ho.steps hsteps ?_⟩
        rwa [← hs'.records.accepted]
      · rw [hs.records.accepted] at hn'
        refine ⟨x', hs', hu.setup hx, ho.setup S.reliability_valid S.first hu hn' hx ?_ ?_⟩
        · intro heq
          rw [← hs.records.accepted]
          exact hm.1 (hr s heq)
        · intro heq
          rw [← hs.records.dispatched]
          exact hm.2 (hr s.other heq)

/-! ## What can be seen of it -/

theorem Stands.engine? (h : S.Stands net x) (s : Side) :
    (net.engine? s.index (S.address s.other) = none ∧
        x.engine s = .start (S.config s).reliability) ∨
      ∃ engine, net.engine? s.index (S.address s.other) = some engine ∧
        engine.Follows (x.engine s) := by
  obtain ⟨node, hn, hr⟩ := h.nodes s
  rw [Network.engine?, hn]
  rcases hr.keeps.connection with ⟨hnil, hstart⟩ | ⟨engine, hone, hf, -⟩
  · refine .inl ⟨?_, hstart⟩
    rw [Option.bind_some, Connections.find?, hnil]
    rfl
  · refine .inr ⟨engine, ?_, hf⟩
    rw [Option.bind_some, Connections.find?, hone, Assoc.lookup_cons_eq_ite, if_pos rfl]

theorem Stands.tracks (h : S.Stands net x) {s : Side} (ho : x.InOrder s) {k : Nat} :
    S.tracks net s (.nth k) = true ↔ (x.engine s).Tracks k := by
  have hw := ho.sends.sound.tracker
  have hlocked : (x.engine s).isUnacked (.nth k) = true ↔ (x.engine s).Tracks k := by
    rw [LockedEngine.isUnacked, Tracker.isUnacked, Option.isSome_iff_exists]
    exact exists_congr fun u => Tracker.find?_eq_some_iff hw
  rw [← hlocked, Pair.tracks]
  rcases h.engine? s with ⟨hnone, hstart⟩ | ⟨engine, hsome, hf⟩
  · rw [hnone, hstart]
    simp [LockedEngine.isUnacked, Tracker.isUnacked, Tracker.find?, Tracker.occupant?,
      LockedEngine.start]
  · rw [hsome, Option.any_some, hf.isUnacked]

theorem Stands.holds (h : S.Stands net x) {s : Side} {k : Nat} :
    S.holds net s (.nth k) = true ↔ (x.engine s).ordering.Has k := by
  rw [Pair.holds, OrderingBuffer.Has]
  rcases h.engine? s with ⟨hnone, hstart⟩ | ⟨engine, hsome, hf⟩
  · rw [hnone, hstart]
    simp [LockedEngine.start, Reliability.firstOrdering, OrderingBuffer.new, OrderingBuffer.find?]
  · rw [hsome, Option.any_some, hf.ordering]

theorem Stands.unackedCount (h : S.Stands net x) (s : Side) :
    S.unackedCount net s = (x.engine s).tracker.size := by
  rw [Pair.unackedCount]
  rcases h.engine? s with ⟨hnone, hstart⟩ | ⟨engine, hsome, hf⟩
  · rw [hnone, hstart]
    rfl
  · rw [hsome, Option.map_some, Option.getD_some, hf.stats]
    rfl

end Runs

/-! ## Main results -/

/-- In the data phase an application gets what the peer's application sent, in order and once
each; every number sent is tracked or has arrived, and with nothing in flight all has been
dispatched. -/
theorem dispatched_prefix_of_dataPhase {S : Pair} {net : Network} {log : Log}
    (run : S.Run DataPhase net log) (hn : ∀ s, (log.accepted s).length < 0x80000000) (s : Side) :
    log.dispatched s.other <+: log.accepted s ∧
      (∀ k seq, (log.numbers s)[k]? = some seq → S.tracks net s seq = true ∨
        k < (log.dispatched s.other).length ∨ S.holds net s.other seq = true) ∧
      (S.unackedCount net s = 0 → log.dispatched s.other = log.accepted s) := by
  obtain ⟨x, hs, hx⟩ := run.sound hn
  have ho := hx.inOrder s
  rw [hs.records.dispatched, hs.records.accepted]
  refine ⟨ho.got_front, ?_, ?_⟩
  · intro k seq hk
    rw [hs.records.numbers, ho.numbers, List.getElem?_map, Option.map_eq_some_iff] at hk
    obtain ⟨j, hj, rfl⟩ := hk
    obtain ⟨hlt, rfl⟩ := List.getElem?_eq_some_iff.mp hj
    rw [List.length_range] at hlt
    rw [List.getElem_range, hs.stands.tracks ho, hs.stands.holds]
    exact hx.complete.covers s k hlt
  · intro hzero
    rw [hs.stands.unackedCount] at hzero
    exact hx.complete.got_eq ho (hs.bounded hn s) (List.eq_nil_of_length_eq_zero hzero)

/-- The first copy arrives cut short, the second one whole. -/
def cutThenWhole : List Move :=
  [.send .left [7], .double 0, .deliver 0 (.cut 3), .deliver 0 .none]

theorem dispatched_cutThenWhole :
    let log := (neighbours.playAll neighbours.start [] cutThenWhole).2
    (∀ s, (log.accepted s).length < 0x80000000) ∧ log.dispatched .right = [[7]] ∧
      log.dispatched .right <+: log.accepted .left := by
  have hn : ∀ s, (Log.accepted (neighbours.playAll neighbours.start [] cutThenWhole).2 s).length <
      0x80000000 := by
    intro s
    cases s <;> decide +kernel
  have run : neighbours.Run DataPhase _ _ := .playAll cutThenWhole .start (by decide +kernel)
  exact ⟨hn, by decide +kernel, (dispatched_prefix_of_dataPhase run hn .left).1⟩

/-- In a direction that is started in time, an application gets what the peer's application
sent, in order and once each. -/
theorem dispatched_prefix_of_inTime {S : Pair} {net : Network} {log : Log} {s : Side}
    (run : S.Run (S.InTime s) net log) (hn : (log.accepted s).length < 0x80000000) :
    log.dispatched s.other <+: log.accepted s := by
  obtain ⟨x, hs, -, ho⟩ := run.inOrder hn
  rw [hs.records.dispatched, hs.records.accepted]
  exact ho.got_front

/-- The SYN arrives after the receiver of it has sent. -/
def synAfterSend : List Move :=
  [.connect .left, .send .right [1], .deliver 0 .none, .send .right [2], .deliver 2 .none]

/-- Here the sender starts anew after it has sent, and its first payload is lost. -/
example :
    let log := (neighbours.playAll neighbours.start [] synAfterSend).2
    log.accepted .right = [[1], [2]] ∧ log.dispatched .left = [[2]] := by
  decide +kernel

end Pair

end ReliableDatagram
