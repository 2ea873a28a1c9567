/-
What bounds an engine in every state that it comes to.

The congestion window stays between one packet and the peer's window, and
all of its fields fit into the word that packs them.  Never more packets are
in flight than the peer's window allows.  Nobody checks this when a loss
shrinks the congestion window below what is in flight already; a send only
asks for room in the smaller one, so the greater bound is what carries over
from state to state.

The lock-free engine counts its packets in flight beside its table.  Each place
where it lowers the counter gives back what was counted before.  `Counts` says so
of the state between calls: the counter is the number of entries and of occupied
slots, and wherever an operation lowers it, it is at least one.  No subtraction
wraps around, therefore, and none could be hidden by the arithmetic of words.

The settings of an engine never change.  This is trivial for each operation and
needed for every run, because the bounds are the settings' own; the lemma about
any call is here for the modules that follow.
-/
import ReliableDatagram.Proofs.Engine.Refusals

namespace ReliableDatagram

/-! ## The table and its counter -/

namespace SlotTable

theorem length_pos_of_removeIf {α : Type} {table rest : SlotTable α} {key : Nat}
    {matching : α → Bool} {a : α} (h : table.removeIf key matching = .done (some a, rest)) :
    0 < table.occupied.length := by
  rw [List.length_pos_iff]
  intro hempty
  have hnone : table.occupant? key = none := by
    rw [occupant?, hempty]
    rfl
  rw [removeIf, checkOut, hnone] at h
  cases h

/-- No slot of a table that mirrors a tracker is checked out: it has as many entries as occupied
slots. -/
theorem Mirrors.length_eq {table : SlotTable Unacked} {t : Tracker} (h : table.Mirrors t) :
    table.entries.length = t.size ∧ table.occupied.length = t.size :=
  ⟨h.entries_perm.length_eq, h.perm.length_eq.trans (List.length_map _)⟩

end SlotTable

namespace LockFreeEngine

/-- The counter of packets in flight tells what the table holds, and is lowered only where it is
at least one: after a reservation, or for a packet that leaves the table. -/
structure Counts (f : LockFreeEngine) : Prop where
  entries : f.inFlight.toNat = f.table.entries.length
  occupied : f.inFlight.toNat = f.table.occupied.length
  reserved : ∀ r, f.reserve = (.ok (), r) → r.inFlight.toNat = f.inFlight.toNat + 1
  removed : ∀ key matching u table,
    f.table.removeIf key matching = .done (some u, table) → 0 < f.inFlight.toNat

theorem Agrees.counts {f : LockFreeEngine} {l : LockedEngine} (h : f.Agrees l) : f.Counts := by
  obtain ⟨hentries, hoccupied⟩ := h.table.length_eq
  refine ⟨h.inFlight.trans hentries.symm, h.inFlight.trans hoccupied.symm, ?_, ?_⟩
  · intro r hr
    cases hfull : l.isWindowFull with
    | true =>
        rw [h.reserve_of_full hfull] at hr
        cases hr
    | false =>
        rw [h.reserve_of_room hfull] at hr
        cases hr
        rw [h.inFlight]
        exact h.toNat_inFlight_succ hfull
  · intro key matching u table hremove
    rw [h.inFlight, ← hoccupied]
    exact SlotTable.length_pos_of_removeIf hremove

end LockFreeEngine

/-! ## The settings of a run -/

namespace LockedEngine

variable {l l' : LockedEngine}

theorem config_send (l : LockedEngine) (p : Packet) (now : Instant) :
    (l.send p now).2.config = l.config := by
  rw [send]
  split
  · rfl
  · split
    · rfl
    · rw [track]
      split
      all_goals rfl

theorem config_sendData (l : LockedEngine) (payload : Bytes) (now : Instant) :
    (l.sendData payload now).2.config = l.config := by
  rcases sendData_cases l payload now with heq | ⟨hfull, hv⟩
  · rw [heq]
  · rw [sendData_of_isVacant hfull hv]

theorem config_handleAck (l : LockedEngine) (p : Packet) (now : Instant) :
    (l.handleAck p now).2.config = l.config := by
  rcases handleAck_cases l p now with ⟨answer, heq, -⟩ | ⟨u, -, -, heq⟩
  · rw [heq]
  · rw [heq]
    rfl

theorem config_timedOut (l : LockedEngine) (now : Instant) :
    (l.timedOut now).2.config = l.config := by
  simp only [timedOut]
  split
  · rfl
  · rfl

theorem config_receive (l : LockedEngine) (p : Packet) : (l.receive p).2.config = l.config := by
  rw [receive_sending]

theorem config_call {c : EngineCall} {answer : EngineAnswer}
    (h : (Engine.locked l).call c = (answer, .locked l')) : l'.config = l.config := by
  cases c with
  | send p now => cases h; exact config_send l p now
  | sendData payload now => cases h; exact config_sendData l payload now
  | handleAck p now => cases h; exact config_handleAck l p now
  | receive p => cases h; exact config_receive l p
  | timedOut now => cases h; exact config_timedOut l now
  | nextNumber | onLoss | isUnacked | retries | budget | stats => cases h; rfl

end LockedEngine

namespace Engine

def window : Engine → CongestionWindow
  | .locked e => e.window
  | .lockFree e => e.window

def tracked : Engine → List Unacked
  | .locked e => e.tracker.entries
  | .lockFree e => e.table.entries

section Follows

variable {e : Engine} {l : LockedEngine}

theorem Follows.sound (h : e.Follows l) : l.Sound := by
  cases e with
  | locked e => exact h.2
  | lockFree f => exact LockFreeEngine.Agrees.sound h

theorem Follows.window (h : e.Follows l) : e.window = l.window := by
  cases e with
  | locked e => exact congrArg LockedEngine.window h.1
  | lockFree f => exact LockFreeEngine.Agrees.window h

theorem Follows.length_tracked (h : e.Follows l) : e.tracked.length = l.tracker.size := by
  cases e with
  | locked e => exact congrArg (fun l => l.tracker.size) h.1
  | lockFree f => exact (LockFreeEngine.Agrees.table h).length_eq.1

theorem Follows.after_of_config (h : e.Follows l) (calls : List EngineCall) :
    ∃ l', (e.after calls).Follows l' ∧ l'.config = l.config := by
  induction calls generalizing e l with
  | nil => exact ⟨l, h, rfl⟩
  | cons c rest ih =>
      obtain ⟨l', hcall, hf⟩ := h.call c
      obtain ⟨last, hlast, hconfig⟩ := ih hf
      exact ⟨last, hlast, hconfig.trans (LockedEngine.config_call hcall)⟩

theorem Follows.length_tracked_handleAck (h : e.Follows l) {p : Packet} {now : Instant}
    (hok : (e.handleAck p now).1 = .ok true) :
    (e.handleAck p now).2.tracked.length + 1 = e.tracked.length := by
  obtain ⟨hanswer, hf⟩ := h.handleAck p now
  rw [h.length_tracked, hf.length_tracked]
  rcases LockedEngine.handleAck_cases l p now with ⟨answer, heq, hne, -⟩ | ⟨u, -, hfind, heq⟩
  · rw [heq] at hanswer
    exact absurd (hanswer.symm.trans hok) hne
  · rw [heq]
    exact Tracker.size_acknowledge (u := u) (by simp [Tracker.acknowledge, hfind])

end Follows

/-! ## Main result -/

/-- An engine within the bounds of its settings. -/
structure InBounds (e : Engine) (config : Reliability) : Prop where
  window : e.window.Within config.windowSize
  tracked_le : e.tracked.length ≤ config.windowSize.toNat
  /-- The number of packets in flight is a 32-bit word. -/
  tracked_lt : e.tracked.length < 0x100000000
  /-- Reports tell that number. -/
  reported : e.stats.unacked = e.tracked.length
  /-- A window comes out of its word as it was put in, after each change, too. -/
  packed : ∀ w ∈ [e.window, config.grown e.window, e.window.onLoss],
    CongestionWindow.ofBits w.toBits = w
  /-- No acknowledgement divides by zero. -/
  grows : ∀ mode, ∃ w, e.window.onAck config.windowSize mode = .ok w
  acknowledged : ∀ p now, (e.handleAck p now).1 = .ok true →
    (e.handleAck p now).2.tracked.length + 1 = e.tracked.length
  counts : ∀ f, e = .lockFree f → f.Counts

theorem Follows.inBounds {e : Engine} {l : LockedEngine} (h : e.Follows l) :
    e.InBounds l.config := by
  have hs := h.sound
  have hw : e.window.Within l.config.windowSize := by
    rw [h.window]
    exact hs.window
  have hle : e.tracked.length ≤ l.config.windowSize.toNat := by
    rw [h.length_tracked]
    exact hs.size_le
  refine ⟨hw, hle, Nat.lt_of_le_of_lt hle l.config.windowSize.toNat_lt, ?_, ?_, ?_, ?_, ?_⟩
  · rw [h.stats, h.length_tracked]
    rfl
  · intro w hmem
    have hwithin : w.Within l.config.windowSize := by
      simp only [List.mem_cons, List.not_mem_nil, or_false] at hmem
      rcases hmem with rfl | rfl | rfl
      · exact hw
      · exact Reliability.grown_within hw
      · exact hw.onLoss hs.windowSize_le
    exact hwithin.ofBits_toBits hs.windowSize_le
  · intro mode
    obtain ⟨w, hok, -⟩ := hw.onAck mode
    exact ⟨w, hok⟩
  · intro p now hok
    exact h.length_tracked_handleAck hok
  · rintro f rfl
    exact LockFreeEngine.Agrees.counts h

/-- Whatever calls are made, an engine of either kind stays within the bounds of its settings. -/
theorem inBounds_of_every_run {kind : EngineKind} {config : Reliability} {e : Engine}
    (hnew : new kind config = .ok e) (calls : List EngineCall) :
    (e.after calls).InBounds config := by
  obtain ⟨-, hf⟩ := follows_start hnew
  obtain ⟨l, hl, hconfig⟩ := hf.after_of_config calls
  have hbounds := hl.inBounds
  rw [hconfig] at hbounds
  exact hbounds

/-- Settings with room for four packets in flight from the start. -/
def fourInFlight : Reliability where
  windowSize := 4
  initialWindow := 4
  tableSize := 16
  receiveCapacity := 1

/-- Four packets are in flight when a loss shrinks the window to two; one is acknowledged. -/
def shrinkingRun : List EngineCall :=
  List.replicate 4 (.sendData [7] 0) ++ [.onLoss, .handleAck (.acknowledge ⟨2⟩) 0]

theorem inBounds_of_shrinkingRun :
    ∃ e, new .lockFree fourInFlight = .ok e ∧ (e.after shrinkingRun).InBounds fourInFlight ∧
      (e.after shrinkingRun).window.size = 2 ∧ (e.after shrinkingRun).tracked.length = 3 := by
  obtain ⟨e, hnew⟩ : ∃ e, new .lockFree fourInFlight = .ok e := ⟨_, rfl⟩
  refine ⟨e, hnew, inBounds_of_every_run hnew shrinkingRun, ?_, ?_⟩
  · cases hnew
    decide +kernel
  · cases hnew
    decide +kernel

end Engine

end ReliableDatagram
