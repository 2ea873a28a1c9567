/-
A refused call leaves no trace.

An engine refuses to send when the window is full or the slot is taken, takes
no notice of an acknowledgement that matches no packet in flight, and drops a
received packet that is a duplicate or finds no room.  The lock-free engine
changes its state on the way to some of these answers: it raises the counter
of packets in flight before it looks for a slot, it checks an entry out of the
table to look at its number, and it takes the drain flag.  All of it is taken
back, word by word, so a caller who is refused finds the engine as it was.

For the locked engine there is little to show, as it looks before it changes
anything.  For the lock-free engine the equation is between whole states, so every
word that was touched has to be seen coming back: the counter is lowered by what
it was raised, the entry is put into the slot that it came from, which gives the
same list of slots because the list is in order, and the position is published as
it was.

A duplicate is not an error, and its sender is told that it arrived; still it
counts as refused here, since the engine has no use for it.
-/
import ReliableDatagram.Proofs.Engine.Equivalence

namespace ReliableDatagram

/-! ## State by state -/

namespace LockedEngine

variable {e : LockedEngine} {p : Packet}

theorem send_of_error {now : Instant} {err : EngineError} (h : (e.send p now).1 = .error err) :
    (e.send p now).2 = e := by
  rw [send] at h ⊢
  split
  · rfl
  · next hk =>
      rw [if_neg hk] at h
      split
      · rfl
      · next hfull =>
          rw [if_neg hfull] at h
          cases hv : e.tracker.isVacant p.seq with
          | false => rw [track_of_not_isVacant hv]
          | true =>
              rw [track_of_isVacant (Decidable.not_not.mp hk) hv] at h
              cases h

theorem sendData_of_error {payload : Bytes} {now : Instant} {err : EngineError}
    (h : (e.sendData payload now).1 = .error err) : (e.sendData payload now).2 = e := by
  rcases sendData_cases e payload now with heq | ⟨hfull, hv⟩
  · rw [heq]
  · rw [sendData_of_isVacant hfull hv] at h
    cases h

theorem handleAck_of_ne {now : Instant} (h : (e.handleAck p now).1 ≠ .ok true) :
    (e.handleAck p now).2 = e := by
  rcases handleAck_cases e p now with ⟨answer, heq, -⟩ | ⟨u, -, -, heq⟩
  · rw [heq]
  · rw [heq] at h
    exact absurd rfl h

/-- The only packet that is turned away is DATA without room. -/
theorem overflow_of_receive {err : EngineError} (h : (e.receive p).1 = .error err) :
    p.kind = .data ∧ (e.ordering.receive p).1 = .overflow := by
  rw [receive] at h
  cases hk : p.kind with
  | data =>
      simp only [hk, receiveData] at h
      split at h
      · cases h
      · next hd => exact ⟨rfl, by rw [hd]⟩
      · cases h
  | syn | ack | fin | rst =>
      simp only [hk] at h
      cases h

theorem receive_of_overflow (hk : p.kind = .data) (ho : (e.ordering.receive p).1 = .overflow) :
    (e.receive p).2 = e := by
  rw [receive, hk]
  simp only [receiveData, OrderingBuffer.receive_of_overflow ho]

theorem receive_of_isDuplicate (hk : p.kind = .data) (h : e.ordering.isDuplicate p.seq = true) :
    e.receive p = (.ok [], e) := by
  rw [receive, hk]
  simp only [receiveData, OrderingBuffer.receive_of_isDuplicate h]

end LockedEngine

namespace LockFreeEngine

variable {f : LockFreeEngine} {l : LockedEngine} {p : Packet}

theorem Agrees.send_of_error (h : f.Agrees l) {now : Instant} {err : EngineError}
    (herr : (f.send p now).1 = .error err) : (f.send p now).2 = f := by
  rw [LockFreeEngine.send] at herr ⊢
  by_cases hk : p.isKind .data = true
  · rw [if_neg (not_not_intro hk)] at herr ⊢
    cases hfull : l.isWindowFull with
    | true => rw [h.reserve_of_full hfull]
    | false =>
        rw [h.reserve_of_room hfull] at herr ⊢
        cases hv : l.tracker.isVacant p.seq with
        | true =>
            have hok := (track_of_isVacant hk h hfull hv now).1
            simp only [hok] at herr
            cases herr
        | false =>
            have hi := h.table.tryInsert_of_not_isVacant h.sound.tracker hv (.sent p now)
            simp only [track, keyOf, hi, unreserve_reserved]
  · rw [if_pos hk]

theorem Agrees.sendData_of_error (h : f.Agrees l) {payload : Bytes} {now : Instant}
    {err : EngineError} (herr : (f.sendData payload now).1 = .error err) :
    (f.sendData payload now).2 = f := by
  cases hfull : l.isWindowFull with
  | true => simp only [LockFreeEngine.sendData, h.reserve_of_full hfull]
  | false =>
      have hr := h.reserve_of_room hfull
      have hvac : f.isVacant f.numbering.upcoming = l.tracker.isVacant l.numbering.upcoming := by
        rw [h.numbering]
        exact h.table.isVacant h.sound.tracker _
      cases hv : l.tracker.isVacant l.numbering.upcoming with
      | false => rw [sendData_of_refused hr (hvac.trans hv), unreserve_reserved]
      | true =>
          rw [(h.sendData payload now).1, LockedEngine.sendData_of_isVacant hfull hv] at herr
          cases herr

theorem Agrees.handleAck_of_ne (h : f.Agrees l) {now : Instant}
    (hne : (f.handleAck p now).1 ≠ .ok true) : (f.handleAck p now).2 = f := by
  rcases LockedEngine.handleAck_cases l p now with ⟨answer, -, -, hnone⟩ | ⟨u, -, -, heq⟩
  · rw [LockFreeEngine.handleAck]
    by_cases ha : p.hasFlag .ack = true
    · have hremoval := h.table.removeIf_of_find?_none h.sound.tracker (hnone ha)
      rw [if_neg (not_not_intro ha)]
      simp only [keyOf, hremoval, Attempt.getD]
    · rw [if_pos ha]
  · rw [(h.handleAck p now).1, heq] at hne
    exact absurd rfl hne

theorem Agrees.process_of_duplicate (h : f.Agrees l)
    (hd : f.ordering.isDuplicate p.seq = true) : f.process (.data p) = (.ok [], f) := by
  have hpublished : f.ordering.position = f.published := by rw [h.ordering, h.published]
  simp only [process, OrderingBuffer.receive_of_isDuplicate hd, publish, hpublished]

theorem process_of_overflow (ho : (f.ordering.receive p).1 = .overflow) :
    (f.process (.data p)).2 = f := by
  simp only [process, OrderingBuffer.receive_of_overflow ho]

theorem Agrees.receive_data (h : f.Agrees l) (hk : p.kind = .data) :
    f.receive p =
      if p.seq.isBefore f.published = true then (.ok [], f) else f.process (.data p) := by
  rw [LockFreeEngine.receive, workOf?, hk]
  cases p.seq.isBefore f.published with
  | true => rfl
  | false =>
      simp only [Bool.false_eq_true, if_false, receiveWork_eq h.free h.idle, Attempt.getD]

theorem Agrees.receive_of_overflow (h : f.Agrees l) (hk : p.kind = .data)
    (ho : (f.ordering.receive p).1 = .overflow) : (f.receive p).2 = f := by
  rw [h.receive_data hk]
  split
  · rfl
  · exact process_of_overflow ho

theorem Agrees.receive_of_isDuplicate (h : f.Agrees l) (hk : p.kind = .data)
    (hd : f.ordering.isDuplicate p.seq = true) : f.receive p = (.ok [], f) := by
  rw [h.receive_data hk, h.process_of_duplicate hd, ite_self]

end LockFreeEngine

/-! ## Any refused call -/

namespace Engine

def after (e : Engine) : List EngineCall → Engine
  | [] => e
  | c :: rest => (e.call c).2.after rest

/-- Whether an engine refuses a call: it answers an error, it has no use for an acknowledgement,
or it is to drop a duplicate. -/
def Refuses (e : Engine) : EngineCall → Prop
  | .send p now => ∃ err, (e.send p now).1 = .error err
  | .sendData payload now => ∃ err, (e.sendData payload now).1 = .error err
  | .handleAck p now => (e.handleAck p now).1 ≠ .ok true
  | .receive p =>
    (∃ err, (e.receive p).1 = .error err) ∨
      (p.kind = .data ∧ e.ordering.isDuplicate p.seq = true)
  | _ => False

section Follows

variable {e : Engine} {l : LockedEngine}

theorem Follows.after (h : e.Follows l) (calls : List EngineCall) :
    ∃ l', (e.after calls).Follows l' := by
  induction calls generalizing e l with
  | nil => exact ⟨l, h⟩
  | cons c rest ih =>
      obtain ⟨l', -, hf⟩ := h.call c
      exact ih hf

theorem Follows.send_of_error (h : e.Follows l) {p : Packet} {now : Instant} {err : EngineError}
    (herr : (e.send p now).1 = .error err) : (e.send p now).2 = e := by
  cases e with
  | locked e => exact congrArg Engine.locked (LockedEngine.send_of_error herr)
  | lockFree f => exact congrArg Engine.lockFree (LockFreeEngine.Agrees.send_of_error h herr)

theorem Follows.sendData_of_error (h : e.Follows l) {payload : Bytes} {now : Instant}
    {err : EngineError} (herr : (e.sendData payload now).1 = .error err) :
    (e.sendData payload now).2 = e := by
  cases e with
  | locked e => exact congrArg Engine.locked (LockedEngine.sendData_of_error herr)
  | lockFree f => exact congrArg Engine.lockFree (LockFreeEngine.Agrees.sendData_of_error h herr)

theorem Follows.handleAck_of_ne (h : e.Follows l) {p : Packet} {now : Instant}
    (hne : (e.handleAck p now).1 ≠ .ok true) : (e.handleAck p now).2 = e := by
  cases e with
  | locked e => exact congrArg Engine.locked (LockedEngine.handleAck_of_ne hne)
  | lockFree f => exact congrArg Engine.lockFree (LockFreeEngine.Agrees.handleAck_of_ne h hne)

theorem Follows.receive_of_error (h : e.Follows l) {p : Packet} {err : EngineError}
    (herr : (e.receive p).1 = .error err) : (e.receive p).2 = e := by
  have hanswer := (h.receive p).1
  rw [herr] at hanswer
  obtain ⟨hk, ho⟩ := LockedEngine.overflow_of_receive hanswer.symm
  cases e with
  | locked e =>
      obtain ⟨rfl, -⟩ := h
      exact congrArg Engine.locked (LockedEngine.receive_of_overflow hk ho)
  | lockFree f =>
      have ho' : (f.ordering.receive p).1 = .overflow := by
        rw [LockFreeEngine.Agrees.ordering h, ho]
      exact congrArg Engine.lockFree (LockFreeEngine.Agrees.receive_of_overflow h hk ho')

theorem Follows.receive_of_isDuplicate (h : e.Follows l) {p : Packet} (hk : p.kind = .data)
    (hd : e.ordering.isDuplicate p.seq = true) : e.receive p = (.ok [], e) := by
  cases e with
  | locked e => rw [Engine.receive, LockedEngine.receive_of_isDuplicate hk hd]; rfl
  | lockFree f => rw [Engine.receive, LockFreeEngine.Agrees.receive_of_isDuplicate h hk hd]; rfl

/-- A refused call leaves no trace. -/
theorem Follows.call_of_refuses (h : e.Follows l) {c : EngineCall} (hc : e.Refuses c) :
    (e.call c).2 = e := by
  cases c with
  | send p now =>
      obtain ⟨err, herr⟩ := hc
      exact h.send_of_error herr
  | sendData payload now =>
      obtain ⟨err, herr⟩ := hc
      exact h.sendData_of_error herr
  | handleAck p now => exact h.handleAck_of_ne hc
  | receive p =>
      rcases hc with ⟨err, herr⟩ | ⟨hk, hd⟩
      · exact h.receive_of_error herr
      · exact congrArg Prod.snd (h.receive_of_isDuplicate hk hd)
  | nextNumber | timedOut | onLoss | isUnacked | retries | budget | stats => exact hc.elim

end Follows

/-! ## Main result -/

/-- In every state that an engine of either kind comes to, a call that it refuses leaves that very
state: every packet in flight, every number, word and counter.  So the same call is refused again
with the same answer, and no number was used up. -/
theorem unchanged_of_refuses {kind : EngineKind} {config : Reliability} {e : Engine}
    (hnew : new kind config = .ok e) (calls : List EngineCall) {c : EngineCall}
    (hc : (e.after calls).Refuses c) :
    ((e.after calls).call c).2 = e.after calls ∧
      (((e.after calls).call c).2.call c).1 = ((e.after calls).call c).1 ∧
      ((e.after calls).call c).2.nextNumber.1 = (e.after calls).nextNumber.1 := by
  obtain ⟨-, hf⟩ := follows_start hnew
  obtain ⟨l, hl⟩ := hf.after calls
  have hsame := hl.call_of_refuses hc
  exact ⟨hsame, by rw [hsame], by rw [hsame]⟩

/-- There is room in the window, but the packet in flight has the slot of the second one. -/
theorem unchanged_of_slotCollision :
    ∃ e, new .lockFree { initialWindow := 2, receiveCapacity := 1 } = .ok e ∧
      let tracking := e.after [.send (.data ⟨1⟩ [7]) 0]
      let colliding : EngineCall := .send (.data ⟨0x4001⟩ [8]) 0
      tracking.Refuses colliding ∧ (tracking.call colliding).2 = tracking := by
  obtain ⟨e, hnew⟩ : ∃ e, new .lockFree { initialWindow := 2, receiveCapacity := 1 } = .ok e :=
    ⟨_, rfl⟩
  have hrefuses : (e.after [.send (.data ⟨1⟩ [7]) 0]).Refuses
      (.send (.data ⟨0x4001⟩ [8]) 0) := by
    refine ⟨.slotCollision ⟨0x4001⟩, ?_⟩
    cases hnew
    rfl
  exact ⟨e, hnew, hrefuses, (unchanged_of_refuses hnew _ hrefuses).1⟩

end Engine

end ReliableDatagram
