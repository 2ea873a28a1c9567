/-
The samples of a run, and the estimate that they lead to.

Each acknowledgement that takes a packet out of flight makes one sample: the
time since that packet was sent last, which is none at all if the clock went
back.  Nothing else touches the estimate, in an engine of either kind, so the
estimate after a run is the one that its samples lead to, one after the other.

The samples are read off the run beforehand, by looking each acknowledged packet
up in the state that the calls before have left.  A packet that was sent again is
measured from the last time, also if it is the first copy that was acknowledged;
the program does the same.

With the list of samples at hand the bounds are those of the module on estimates.
The timeout before the first sample is the one of the settings, which nothing
keeps within the bounds for timeouts; from the first sample on it is within them.

Main statement: bounds of estimate and timeout after every run.
-/
import ReliableDatagram.Proofs.Congestion.Estimate
import ReliableDatagram.Proofs.Engine.Overdue

namespace ReliableDatagram

theorem Reliability.Valid.minTimeout_le {c : Reliability} (h : c.Valid) :
    c.minTimeout.nanos ≤ c.maxTimeout.nanos := by
  simp only [Valid, defect?, ite_some_eq_none] at h
  exact Nat.le_of_not_lt h.2.2.2.2.2.2.1

namespace Engine

def roundTrip : Engine → RoundTrip
  | .locked e => e.roundTrip
  | .lockFree e => e.roundTrip

def inFlight? (e : Engine) (s : SeqNum) : Option Unacked :=
  e.tracked.find? (·.packet.seq == s)

/-- The sample that a call makes: the time since the packet that it acknowledges was sent last. -/
def sample? (e : Engine) : EngineCall → Option Duration
  | .handleAck p now =>
    if p.hasFlag .ack then (e.inFlight? p.ack.prev).map fun u => .between u.sentAt now else none
  | _ => none

/-- The samples that calls make one after the other. -/
def samples (e : Engine) : List EngineCall → List Duration
  | [] => []
  | c :: rest => (e.sample? c).toList ++ (e.call c).2.samples rest

end Engine

/-! ## One call -/

namespace LockedEngine

variable {l : LockedEngine}

theorem roundTrip_send (l : LockedEngine) (p : Packet) (now : Instant) :
    (l.send p now).2.roundTrip = l.roundTrip := by
  rcases send_cases l p now with ⟨result, heq, -⟩ | ⟨hk, hv, heq⟩
  · rw [heq]
  · rw [heq, track_of_isVacant hk hv]

theorem roundTrip_sendData (l : LockedEngine) (payload : Bytes) (now : Instant) :
    (l.sendData payload now).2.roundTrip = l.roundTrip := by
  rcases sendData_cases l payload now with heq | ⟨hfull, hv⟩
  · rw [heq]
  · rw [sendData_of_isVacant hfull hv]

end LockedEngine

namespace Engine

section Follows

variable {e : Engine} {l : LockedEngine}

theorem Follows.roundTrip (h : e.Follows l) : e.roundTrip = l.roundTrip := by
  cases e with
  | locked e => exact congrArg LockedEngine.roundTrip h.1
  | lockFree f => exact LockFreeEngine.Agrees.roundTrip h

theorem Follows.inFlight? (h : e.Follows l) (s : SeqNum) :
    e.inFlight? s = l.tracker.find? s := by
  have hmem {u : Unacked} : u ∈ e.tracked ↔ u ∈ l.tracker.entries := h.perm_tracked.mem_iff
  rw [Engine.inFlight?]
  cases hf : e.tracked.find? (·.packet.seq == s) with
  | none =>
      refine ((Tracker.find?_eq_none_iff h.sound.tracker).mpr fun u hu hs => ?_).symm
      exact List.find?_eq_none.mp hf u (hmem.mpr hu) (beq_iff_eq.mpr hs)
  | some u =>
      have hs : u.packet.seq = s := by simpa using List.find?_some hf
      have hu := hmem.mp (List.mem_of_find?_eq_some hf)
      exact ((Tracker.find?_eq_some_iff h.sound.tracker).mpr ⟨hu, hs⟩).symm

/-- A call makes a sample and answers that it found its packet, or leaves the estimate as it is. -/
theorem Follows.sampled (h : e.Follows l) (c : EngineCall) :
    (∃ d, e.sample? c = some d ∧ (e.call c).1 = .acknowledged (.ok true) ∧
        (e.call c).2.roundTrip = l.config.sampled e.roundTrip d) ∨
      (e.sample? c = none ∧ (e.call c).1 ≠ .acknowledged (.ok true) ∧
        (e.call c).2.roundTrip = e.roundTrip) := by
  -- an engine that follows has the estimate of the engine it follows
  have hsame {e' : Engine} {l' : LockedEngine} (hf : e'.Follows l')
      (hl : l'.roundTrip = l.roundTrip) : e'.roundTrip = e.roundTrip := by
    rw [hf.roundTrip, hl, h.roundTrip]
  cases c with
  | handleAck p now =>
      obtain ⟨hanswer, hf⟩ := h.handleAck p now
      rcases LockedEngine.handleAck_cases l p now with ⟨answer, heq, hne, hnone⟩ | ⟨u, hp, hu, heq⟩
      · refine .inr ⟨?_, ?_, ?_⟩
        · rw [sample?]
          split
          · next hp => rw [h.inFlight?, hnone hp, Option.map_none]
          · rfl
        · rw [heq] at hanswer
          exact fun hok => hne (hanswer.symm.trans (EngineAnswer.acknowledged.inj hok))
        · rw [heq] at hf
          exact hsame hf rfl
      · refine .inl ⟨.between u.sentAt now, ?_, ?_, ?_⟩
        · rw [sample?, if_pos hp, h.inFlight?, hu, Option.map_some]
        · rw [heq] at hanswer
          exact congrArg EngineAnswer.acknowledged hanswer
        · rw [heq] at hf
          rw [h.roundTrip]
          exact hf.roundTrip
  | send p now =>
      exact .inr ⟨rfl, nofun, hsame (h.send p now).2 (l.roundTrip_send p now)⟩
  | sendData payload now =>
      exact .inr ⟨rfl, nofun, hsame (h.sendData payload now).2 (l.roundTrip_sendData payload now)⟩
  | receive p =>
      refine .inr ⟨rfl, nofun, hsame (h.receive p).2 ?_⟩
      rw [LockedEngine.receive_sending]
  | timedOut now =>
      exact .inr ⟨rfl, nofun, hsame (h.timedOut now).2 (l.timedOut_frame now).2.2.1⟩
  | nextNumber => exact .inr ⟨rfl, nofun, hsame h.nextNumber.2 rfl⟩
  | onLoss => exact .inr ⟨rfl, nofun, hsame h.onLoss rfl⟩
  | isUnacked | retries | budget | stats => exact .inr ⟨rfl, nofun, rfl⟩

/-! ## A run -/

theorem Follows.roundTrip_after (h : e.Follows l) (calls : List EngineCall) :
    (e.after calls).roundTrip =
      e.roundTrip.afterSamples l.config.minTimeout l.config.maxTimeout (e.samples calls) := by
  induction calls generalizing e l with
  | nil => rfl
  | cons c rest ih =>
      obtain ⟨l', hcall, hf⟩ := h.call c
      have hrest := ih hf
      rw [LockedEngine.config_call hcall] at hrest
      rw [Engine.after, samples, RoundTrip.afterSamples, List.foldl_append, hrest]
      rcases h.sampled c with ⟨d, hd, -, hnext⟩ | ⟨hd, -, hnext⟩
      · rw [hd, hnext]
        rfl
      · rw [hd, hnext]
        rfl

theorem Follows.length_samples (h : e.Follows l) (calls : List EngineCall) :
    (e.samples calls).length = (e.events calls).countP (·.acknowledged?.isSome) := by
  induction calls generalizing e l with
  | nil => rfl
  | cons c rest ih =>
      obtain ⟨l', -, hf⟩ := h.call c
      have hone : (e.sample? c).isSome = (EngineEvent.acknowledged? ⟨c, (e.call c).1⟩).isSome := by
        rcases h.sampled c with ⟨d, hd, hok, -⟩ | ⟨hd, hne, -⟩
        · rw [hd, hok]
          cases c with
          | handleAck p now => rfl
          | _ => cases hd
        · rw [hd, EngineEvent.acknowledged?.eq_def]
          split
          · next heq => exact absurd (congrArg EngineEvent.answer heq) hne
          · rfl
      rw [samples, events_cons, List.length_append, List.countP_cons, ih hf, ← hone, Nat.add_comm]
      congr 1
      cases e.sample? c with
      | none => rfl
      | some d => rfl

end Follows

/-! ## Main result -/

/-- An engine with settings `config` whose acknowledgements made these samples so far. -/
structure Estimates (e : Engine) (config : Reliability) (samples : List Duration) : Prop where
  first : samples = [] → e.roundTrip.smoothedMicros = config.initialRoundTrip.micros ∧
    e.roundTrip.timeoutMicros = config.initialTimeout.micros
  /-- The estimate is between the least and the greatest of what went into it. -/
  least : ∃ n ∈ (config.initialRoundTrip :: samples).map (·.micros),
    n.toNat ≤ e.roundTrip.smoothedMicros.toNat
  greatest : ∃ n ∈ (config.initialRoundTrip :: samples).map (·.micros),
    e.roundTrip.smoothedMicros.toNat ≤ n.toNat
  timeout : samples ≠ [] → e.roundTrip.timeoutMicros.toNat =
    min (max (4 * e.roundTrip.smoothedMicros.toNat) config.minTimeout.micros.toNat)
      config.maxTimeout.micros.toNat
  timeout_mem : samples ≠ [] →
    config.minTimeout.micros.toNat ≤ e.roundTrip.timeoutMicros.toNat ∧
      e.roundTrip.timeoutMicros.toNat ≤ config.maxTimeout.micros.toNat
  /-- The next sample loses nothing to the width of a word either. -/
  exact : ∀ d, e.roundTrip.Exact d config.minTimeout config.maxTimeout
  packed : ∀ f, e = .lockFree f → f.roundTrip.toBits = f.roundTripBits
  reported : e.stats.roundTrip = e.roundTrip.smoothed ∧ e.stats.timeout = e.roundTrip.timeout
  /-- An acknowledgement that finds its packet makes the time since it was sent a sample, which is
  zero if the clock went back. -/
  sampled : ∀ p now, (e.handleAck p now).1 = .ok true → ∃ u, e.inFlight? p.ack.prev = some u ∧
    (e.handleAck p now).2.roundTrip = config.sampled e.roundTrip (.between u.sentAt now) ∧
    (now ≤ u.sentAt → (Duration.between u.sentAt now).micros = 0)
  /-- Nothing else changes estimate or timeout. -/
  unchanged : ∀ c, (e.call c).1 ≠ .acknowledged (.ok true) → (e.call c).2.roundTrip = e.roundTrip

theorem Follows.estimates {e : Engine} {l : LockedEngine} (h : e.Follows l)
    {samples : List Duration} (hv : l.config.Valid)
    (hr : e.roundTrip = l.config.firstRoundTrip.afterSamples l.config.minTimeout
      l.config.maxTimeout samples) : e.Estimates l.config samples := by
  have htimeout : samples ≠ [] → e.roundTrip.timeoutMicros.toNat =
      min (max (4 * e.roundTrip.smoothedMicros.toNat) l.config.minTimeout.micros.toNat)
        l.config.maxTimeout.micros.toNat := by
    intro hne
    rw [hr]
    exact RoundTrip.timeout_afterSamples _ _ _ _ hne
  refine ⟨?_, ?_, ?_, htimeout, ?_, ?_, ?_, ?_, ?_, ?_⟩
  · rintro rfl
    rw [hr]
    exact ⟨rfl, rfl⟩
  · rw [hr]
    exact RoundTrip.exists_le_afterSamples l.config.firstRoundTrip _ _ samples
  · rw [hr]
    exact RoundTrip.exists_afterSamples_le l.config.firstRoundTrip _ _ samples
  · intro hne
    have hle := Duration.micros_mono hv.minTimeout_le
    rw [htimeout hne]
    omega
  · exact fun d => e.roundTrip.exact d _ _
  · exact fun f _ => RoundTrip.toBits_ofBits f.roundTripBits
  · rw [h.stats, h.roundTrip]
    exact ⟨rfl, rfl⟩
  · intro p now hok
    rcases h.sampled (.handleAck p now) with ⟨d, hd, -, hnext⟩ | ⟨-, hne, -⟩
    · rw [sample?, Option.ite_none_right_eq_some, Option.map_eq_some_iff] at hd
      obtain ⟨-, u, hu, rfl⟩ := hd
      refine ⟨u, hu, hnext, fun hback => ?_⟩
      rw [Duration.between, Nat.sub_eq_zero_of_le hback]
      rfl
    · exact absurd (congrArg EngineAnswer.acknowledged hok) hne
  · intro c hne
    rcases h.sampled c with ⟨d, -, hok, -⟩ | ⟨-, -, hsame⟩
    · exact absurd hok hne
    · exact hsame

/-- Whatever calls are made, the estimate of an engine of either kind is the one that its samples
lead to, one for each acknowledgement that finds its packet. -/
theorem estimates_of_every_run {kind : EngineKind} {config : Reliability} {e : Engine}
    (hnew : new kind config = .ok e) (calls : List EngineCall) :
    (e.after calls).Estimates config (e.samples calls) ∧
      (e.samples calls).length = (e.events calls).countP (·.acknowledged?.isSome) := by
  obtain ⟨hv, hf⟩ := follows_start hnew
  obtain ⟨l, hl, hconfig⟩ := hf.after_of_config calls
  have hconfig : l.config = config := hconfig
  have hr := hf.roundTrip_after calls
  rw [hf.roundTrip] at hr
  subst hconfig
  exact ⟨hl.estimates hv hr, hf.length_samples calls⟩

/-- Two payloads, one acknowledged after a hundred and eighty milliseconds, the other one by a
clock that went back; and an acknowledgement too many. -/
def backwardRun : List EngineCall :=
  [.sendData [7] 0, .sendData [8] 50000000, .handleAck (.acknowledge ⟨2⟩) 180000000,
    .handleAck (.acknowledge ⟨3⟩) 20000000, .handleAck (.acknowledge ⟨3⟩) 90000000]

theorem estimates_of_backwardRun :
    ∃ e, new .lockFree twoInFlight = .ok e ∧
      (e.after backwardRun).Estimates twoInFlight (e.samples backwardRun) ∧
      e.samples backwardRun = [.ofMillis 180, .ofMillis 0] ∧
      (e.after backwardRun).roundTrip = ⟨96250, 385000⟩ := by
  obtain ⟨e, hnew⟩ : ∃ e, new .lockFree twoInFlight = .ok e := ⟨_, rfl⟩
  refine ⟨e, hnew, (estimates_of_every_run hnew backwardRun).1, ?_, ?_⟩
  · cases hnew
    decide +kernel
  · cases hnew
    decide +kernel

end Engine

end ReliableDatagram
