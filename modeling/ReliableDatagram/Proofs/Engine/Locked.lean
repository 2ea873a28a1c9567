/-
What every operation of the locked engine keeps.

The window stays in its range, no two packets in flight share a slot, and
there are never more of them than the peer's window allows, also when losses
shrink the congestion window below the number in flight.

`Sound` is the invariant that every other result about engines starts from.  It is
what checked settings lead to, and each operation keeps it.  The bound on the
number in flight is the peer's window and not the window that a send asks for,
since that one may shrink at any time.

Each operation has a lemma that says what it can do, with its guards: a payload
fails without a trace or is recorded under the next number, an acknowledgement
changes nothing or takes one packet away, a scan renews packets and may shrink the
window, and receiving changes the ordering buffer and its counter only.  Later
modules split by these cases and do not open the operations again.
-/
import ReliableDatagram.Engine.Locked
import ReliableDatagram.Proofs.Congestion.Bounds
import ReliableDatagram.Proofs.Sending.Tracker

namespace ReliableDatagram.LockedEngine

/-- The state that checked settings lead to. -/
structure Sound (e : LockedEngine) : Prop where
  windowSize_le : e.config.windowSize ≤ maxWindow
  window : e.window.Within e.config.windowSize
  tracker : e.tracker.WellFormed
  size_le : e.tracker.size ≤ e.config.windowSize.toNat

/-- The state in which a connection starts. -/
def start (config : Reliability) : LockedEngine where
  config
  numbering := .start
  tracker := ⟨config.tableSize, [], none⟩
  window := config.firstWindow
  roundTrip := config.firstRoundTrip
  ordering := config.firstOrdering
  tally := {}

theorem new_eq_start {config : Reliability} (h : config.Valid)
    (hs : config.tableSize ≤ 0x100000000) : new config = .ok (start config) := by
  have : ¬ 0x100000000 < config.tableSize := by omega
  simp only [new, Tracker.new, h.isPowerOfTwo_tableSize, not_true_eq_false, if_false, this]
  rfl

theorem eq_start_of_new {config : Reliability} {e : LockedEngine} (h : new config = .ok e) :
    e = start config := by
  simp only [new, Tracker.new] at h
  split at h
  · cases h
  · split at h
    · cases h
    · cases h
      rfl

theorem sound_start {config : Reliability} (h : config.Valid) : (start config).Sound :=
  ⟨h.windowSize_le, h.firstWindow_within, Tracker.wellFormed_empty _, Nat.zero_le _⟩

section Sound

variable {e : LockedEngine}

/-! ## Sending -/

theorem size_lt_of_not_isWindowFull (h : e.isWindowFull = false) :
    e.tracker.size < e.config.windowSize.toNat := by
  simp only [isWindowFull, effectiveWindow, CongestionWindow.toNat_effective,
    decide_eq_false_iff_not] at h
  omega

theorem track_of_isVacant {p : Packet} (hk : p.isKind .data = true)
    (hv : e.tracker.isVacant p.seq = true) (now : Instant) :
    e.track p now = (.ok (), { e with
      tracker := (e.tracker.record p now).2
      tally := e.tally.countSent }) := by
  simp [track, Tracker.record_of_isVacant hk hv]

theorem track_of_not_isVacant {p : Packet} (hv : e.tracker.isVacant p.seq = false)
    (now : Instant) : e.track p now = (.error (.slotCollision p.seq), e) := by
  simp [track, Tracker.record_of_not_isVacant hv]

theorem Sound.track (h : e.Sound) (hfull : e.isWindowFull = false) {p : Packet}
    (hk : p.isKind .data = true) (now : Instant) : (e.track p now).2.Sound := by
  cases hv : e.tracker.isVacant p.seq with
  | false => rwa [track_of_not_isVacant hv]
  | true =>
      rw [track_of_isVacant hk hv]
      refine ⟨h.windowSize_le, h.window, h.tracker.record p now, ?_⟩
      simp only [Tracker.record_of_isVacant hk hv]
      exact size_lt_of_not_isWindowFull hfull

theorem Sound.send (h : e.Sound) (p : Packet) (now : Instant) : (e.send p now).2.Sound := by
  unfold LockedEngine.send
  split
  · exact h
  · rename_i hk
    split
    · exact h
    · rename_i hfull
      exact h.track (Bool.eq_false_iff.mpr hfull) (Decidable.not_not.mp hk) now

theorem sendData_of_isWindowFull (h : e.isWindowFull = true) (payload : Bytes)
    (now : Instant) : e.sendData payload now = (.error e.windowFull, e) := by
  simp [LockedEngine.sendData, h]

theorem sendData_of_not_isVacant (h : e.tracker.isVacant e.numbering.upcoming = false)
    (payload : Bytes) (now : Instant) :
    e.sendData payload now = (.error e.windowFull, e) := by
  simp [LockedEngine.sendData, Numbering.allocateIf, h]

theorem sendData_of_isVacant (hfull : e.isWindowFull = false)
    (hv : e.tracker.isVacant e.numbering.upcoming = true) (payload : Bytes) (now : Instant) :
    e.sendData payload now = (.ok (.data e.numbering.upcoming payload), { e with
      numbering := ⟨e.numbering.upcoming.next⟩
      tracker := (e.tracker.record (.data e.numbering.upcoming payload) now).2
      tally := e.tally.countSent }) := by
  have htrack := track_of_isVacant
    (e := { e with numbering := ⟨e.numbering.upcoming.next⟩ })
    (p := .data e.numbering.upcoming payload) rfl hv now
  simp [LockedEngine.sendData, hfull, Numbering.allocateIf, hv, htrack]

/-- Numbering a payload fails without a trace or records it under the next number. -/
theorem sendData_cases (e : LockedEngine) (payload : Bytes) (now : Instant) :
    e.sendData payload now = (.error e.windowFull, e) ∨
      (e.isWindowFull = false ∧ e.tracker.isVacant e.numbering.upcoming = true) := by
  cases hfull : e.isWindowFull with
  | true => exact .inl (sendData_of_isWindowFull hfull payload now)
  | false =>
      cases hv : e.tracker.isVacant e.numbering.upcoming with
      | false => exact .inl (sendData_of_not_isVacant hv payload now)
      | true => exact .inr ⟨rfl, rfl⟩

theorem Sound.sendData (h : e.Sound) (payload : Bytes) (now : Instant) :
    (e.sendData payload now).2.Sound := by
  rcases sendData_cases e payload now with heq | ⟨hfull, hv⟩
  · rwa [heq]
  · rw [sendData_of_isVacant hfull hv]
    refine ⟨h.windowSize_le, h.window, h.tracker.record _ now, ?_⟩
    simp only [Tracker.record_of_isVacant (p := .data e.numbering.upcoming payload) rfl hv]
    exact size_lt_of_not_isWindowFull hfull

/-! ## Acknowledgements and losses -/

/-- An acknowledgement changes nothing or takes away the packet in front of it. -/
theorem handleAck_cases (e : LockedEngine) (p : Packet) (now : Instant) :
    (∃ answer, e.handleAck p now = (answer, e) ∧ answer ≠ .ok true ∧
        (p.hasFlag .ack = true → e.tracker.find? p.ack.prev = none)) ∨
      (∃ u, p.hasFlag .ack = true ∧ e.tracker.find? p.ack.prev = some u ∧
        e.handleAck p now = (.ok true,
          { e with tracker := (e.tracker.acknowledge p.ack).2 }.acknowledged u.sentAt now)) := by
  by_cases ha : p.hasFlag .ack = true
  · cases hf : e.tracker.find? p.ack.prev with
    | none =>
        refine .inl ⟨unmatchedAck p.ack (e.numbering.highestIssued e.tracker.highest), ?_, ?_,
          fun _ => rfl⟩
        · simp only [LockedEngine.handleAck, ha, Tracker.acknowledge_of_find?_none hf]
          rfl
        · simp only [unmatchedAck]
          split
          · simp
          · simp
    | some u =>
        refine .inr ⟨u, ha, rfl, ?_⟩
        simp only [LockedEngine.handleAck, ha, Tracker.acknowledge, hf]
        rfl
  · refine .inl ⟨.error .notAnAck, ?_, by simp, fun h => absurd h ha⟩
    rw [LockedEngine.handleAck, if_pos ha]

theorem Sound.handleAck (h : e.Sound) (p : Packet) (now : Instant) :
    (e.handleAck p now).2.Sound := by
  rcases handleAck_cases e p now with ⟨answer, heq, -⟩ | ⟨u, -, hf, heq⟩
  · rwa [heq]
  · rw [heq]
    refine ⟨h.windowSize_le, Reliability.grown_within h.window, h.tracker.acknowledge p.ack, ?_⟩
    have : (e.tracker.acknowledge p.ack).2.size + 1 = e.tracker.size :=
      Tracker.size_acknowledge (u := u) (by simp [Tracker.acknowledge, hf])
    have := h.size_le
    simp only [acknowledged]
    omega

theorem Sound.onLoss (h : e.Sound) : e.onLoss.Sound :=
  ⟨h.windowSize_le, h.window.onLoss h.windowSize_le, h.tracker, h.size_le⟩

theorem Sound.timedOut (h : e.Sound) (now : Instant) : (e.timedOut now).2.Sound := by
  have hs : Sound { e with tracker := (e.tracker.scan now e.roundTrip.timeout).2 } :=
    ⟨h.windowSize_le, h.window, h.tracker.scan now _, by
      simpa only [Tracker.size_scan] using h.size_le⟩
  simp only [LockedEngine.timedOut]
  split
  · exact hs
  · exact ⟨hs.windowSize_le, hs.window.onLoss hs.windowSize_le, hs.tracker, hs.size_le⟩

/-! ## Receiving -/

theorem receive_sending (e : LockedEngine) (p : Packet) :
    (e.receive p).2 = { e with
      ordering := (e.receive p).2.ordering
      tally := (e.receive p).2.tally } := by
  unfold LockedEngine.receive receiveData receiveSyn
  split
  · split
    all_goals rfl
  · rfl
  · rfl

theorem tracker_of_receive {p : Packet} {answer : Released} {l : LockedEngine}
    (h : e.receive p = (answer, l)) : l.tracker = e.tracker := by
  have hs := congrArg LockedEngine.tracker (receive_sending e p)
  rwa [h] at hs

theorem Sound.receive (h : e.Sound) (p : Packet) : (e.receive p).2.Sound := by
  rw [receive_sending]
  exact ⟨h.windowSize_le, h.window, h.tracker, h.size_le⟩

end Sound

end ReliableDatagram.LockedEngine
