/-
What an engine sends again, and what it takes that for.

An engine scans its tracker with the timeout of its estimate and sends every
packet that is offered.  One scan is one sign of a loss, however many packets
it offers, and a scan that offers nothing is none.

All that is known of trackers and their scans is put together here with what
engines add to it.  A tracker is described by its history, and so are the times of
its offers; an engine is compared with the locked engine that it follows, whose
tracker is meant.  The two engines list what they have in flight in different
orders and offer it in the same one.

Main statement: the law of scans, for trackers and for engines of either kind.
-/
import Mathlib
import ReliableDatagram.Proofs.Engine.Accounting
import ReliableDatagram.Proofs.Sending.Scanning

namespace ReliableDatagram

theorem LockedEngine.window_timedOut (l : LockedEngine) (now : Instant) :
    (l.timedOut now).2.window =
      if (l.timedOut now).1 = [] then l.window else l.window.onLoss := by
  have hanswer := (timedOut_eq l now).1
  simp only [LockedEngine.timedOut] at hanswer ⊢
  split
  · rw [if_pos rfl]
  · next hoffers =>
      rw [if_neg (by simpa using hoffers)]
      rfl

namespace Engine

/-- What an engine in the state of a locked one sends again, and what it keeps. -/
structure TimesOut (e : Engine) (l : LockedEngine) (now : Instant) : Prop where
  follows : e.Follows l
  scans : l.tracker.ScansExactly now e.stats.timeout
  /-- It sends what the tracker offers, in this order. -/
  packets : (e.timedOut now).1 = (l.tracker.scan now e.stats.timeout).1.map (·.packet)
  tracked : (e.timedOut now).2.tracked.Perm (l.tracker.scan now e.stats.timeout).2.entries
  /-- The window shrinks once if anything is sent, and stays otherwise. -/
  window : (e.timedOut now).2.window =
    if (e.timedOut now).1 = [] then e.window else e.window.onLoss

theorem Follows.perm_tracked {e : Engine} {l : LockedEngine} (h : e.Follows l) :
    e.tracked.Perm l.tracker.entries := by
  cases e with
  | locked e => rw [Engine.tracked, h.1]
  | lockFree f => exact (LockFreeEngine.Agrees.table h).entries_perm

theorem Follows.timesOut {e : Engine} {l : LockedEngine} (h : e.Follows l) (now : Instant) :
    e.TimesOut l now := by
  obtain ⟨hanswer, hf⟩ := h.timedOut now
  have htimeout : e.stats.timeout = l.roundTrip.timeout := by
    rw [h.stats]
    rfl
  refine ⟨h, h.sound.tracker.scansExactly now _, ?_, ?_, ?_⟩
  · rw [hanswer, htimeout, (LockedEngine.timedOut_eq l now).1]
  · rw [htimeout]
    refine hf.perm_tracked.trans (.of_eq ?_)
    exact (LockedEngine.timedOut_frame l now).2.2.2
  · rw [hf.window, hanswer, h.window]
    exact l.window_timedOut now

/-! ## Main result -/

/-- After any calls a scan offers exactly what is overdue: to whoever has a tracker, and to an
engine of either kind, which takes it for one loss. -/
theorem scans_of_every_run {slots : Nat} (hp : isPowerOfTwo slots = true)
    (hle : slots ≤ 0x100000000) {kind : EngineKind} {config : Reliability} {e : Engine}
    (hnew : new kind config = .ok e) :
    (∃ t, Tracker.new slots = .ok t ∧ ∀ calls,
      (∀ now timeout, (t.after calls).ScansExactly now timeout) ∧
        TrackerEvent.OffersInTime (t.events calls)) ∧
      ∀ calls now, ∃ l, (e.after calls).TimesOut l now := by
  constructor
  · refine ⟨⟨slots, [], none⟩, ?_, fun calls => ?_⟩
    · rw [Tracker.new, if_neg (not_not_intro hp), if_neg (Nat.not_lt.mpr hle)]
    · have hstart := Tracker.hasHistory_empty slots
      exact ⟨fun now timeout => (hstart.run calls).wellFormed.scansExactly now timeout,
        hstart.offersInTime calls⟩
  · intro calls now
    obtain ⟨-, hf⟩ := follows_start hnew
    obtain ⟨l, hl⟩ := hf.after calls
    exact ⟨l, hl.timesOut now⟩

/-- Three packets around the end of the number space, of which the middle one is acknowledged
between two scans, and one scan that comes too early. -/
def wrappingScans : List TrackerCall :=
  [.record (.data ⟨0xffffffff⟩ [7]) 0, .record (.data ⟨0⟩ [8]) 0, .record (.data ⟨1⟩ [9]) 0,
    .scan 200 ⟨100⟩, .acknowledge ⟨1⟩, .scan 250 ⟨100⟩, .scan 400 ⟨100⟩]

/-- Two payloads that are sent again after three seconds. -/
def resentRun : List EngineCall := [.sendData [7] 0, .sendData [8] 0, .timedOut 3000000000]

theorem scans_of_wrappingScans :
    (isPowerOfTwo 16 = true ∧ 16 ≤ 0x100000000) ∧ ∃ e, new .lockFree twoInFlight = .ok e ∧
      (∃ t, Tracker.new 16 = .ok t ∧
        (∀ now timeout, (t.after wrappingScans).ScansExactly now timeout) ∧
        TrackerEvent.OffersInTime (t.events wrappingScans) ∧
        ((t.after wrappingScans).scan 600 ⟨100⟩).1 =
          [⟨.data ⟨0xffffffff⟩ [7], 3⟩, ⟨.data ⟨1⟩ [9], 3⟩]) ∧
      (∃ l, (e.after resentRun).TimesOut l 9000000000) ∧
      ((e.after resentRun).timedOut 9000000000).1 = [.data ⟨1⟩ [7], .data ⟨2⟩ [8]] := by
  obtain ⟨e, hnew⟩ : ∃ e, new .lockFree twoInFlight = .ok e := ⟨_, rfl⟩
  obtain ⟨⟨t, ht, hcalls⟩, hengine⟩ :=
    @scans_of_every_run 16 (by decide) (by decide) _ _ e hnew
  refine ⟨by decide, e, hnew, ⟨t, ht, (hcalls wrappingScans).1, (hcalls wrappingScans).2, ?_⟩,
    hengine resentRun 9000000000, ?_⟩
  · cases ht
    cbv
  · cases hnew
    cbv

end Engine

end ReliableDatagram
