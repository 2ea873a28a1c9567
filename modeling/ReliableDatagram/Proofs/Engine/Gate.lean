/-
When an engine takes up a packet, and when it does not.

Two things can stand in the way of a payload: the window, and an old packet in
the slot of the next number.  Payloads sent one after the other take the slots
of consecutive numbers.  These are different slots, for the table has more of
them than the window allows packets; so the slots taken on the way block none of
the numbers that follow, and how many payloads will pass can be told in advance.

What carries the run is that an engine after `n` payloads is the engine before
them with `n` packets more in flight, and with `n` slots less vacant.  `TookUp`
says that of two states, and one more payload leads from `n` to `n + 1` as long as
there is room.  The count of room is fixed by the first state: it is the lesser of
the budget and of the number of vacant slots ahead, counted from the next number
on and not beyond the budget.

After that nothing passes any more, and the refusal is the same for every later
payload, since a refused payload changes nothing.  So the induction over the
payloads has two parts, and the second one stands still.

A packet that comes with a number of its own is asked the same two questions about
that number, and a packet that is not DATA is asked none.

Main statement: which sends succeed, and what the others are answered.
-/
import ReliableDatagram.Proofs.Engine.Accounting
import ReliableDatagram.Proofs.Sending.History

namespace ReliableDatagram

/-! ## Consecutive numbers and their slots -/

/-- How many consecutive numbers, at most `limit`, are vacant from one on. -/
def SeqNum.vacantFrom (vacant : SeqNum → Bool) : (limit : Nat) → SeqNum → Nat
  | 0, _ => 0
  | limit + 1, s => if vacant s then vacantFrom vacant limit s.next + 1 else 0

theorem SeqNum.vacant_of_lt {vacant : SeqNum → Bool} {limit j : Nat} {s : SeqNum}
    (h : j < vacantFrom vacant limit s) : vacant (s.plus j) = true := by
  induction limit generalizing s j with
  | zero => cases h
  | succ limit ih =>
      rw [vacantFrom] at h
      split at h
      · next hv =>
          cases j with
          | zero => rwa [plus_zero]
          | succ j =>
              have hrest := ih (Nat.lt_of_succ_lt_succ h)
              rwa [next_eq_plus, plus_plus, Nat.add_comm] at hrest
      · cases h

theorem SeqNum.occupied_of_lt {vacant : SeqNum → Bool} {limit : Nat} {s : SeqNum}
    (h : vacantFrom vacant limit s < limit) :
    vacant (s.plus (vacantFrom vacant limit s)) = false := by
  induction limit generalizing s with
  | zero => cases h
  | succ limit ih =>
      rw [vacantFrom] at h ⊢
      split at h
      · next hv =>
          have hrest := ih (Nat.lt_of_succ_lt_succ h)
          rw [if_pos hv]
          rwa [next_eq_plus, plus_plus, Nat.add_comm] at hrest
      · next hv =>
          rw [if_neg hv, plus_zero]
          exact Bool.eq_false_iff.mpr hv

theorem Tracker.slotOf_plus_ne {t : Tracker} (hp : isPowerOfTwo t.slots = true) (s : SeqNum)
    {i k : Nat} (hik : i < k) (hslots : k < t.slots) (hspace : k < 0x100000000) :
    t.slotOf (s.plus i) ≠ t.slotOf (s.plus k) := by
  have hsplit : s.plus k = (s.plus i).plus (k - i) := by
    rw [SeqNum.plus_plus, Nat.add_sub_cancel' (Nat.le_of_lt hik)]
  have hword : ((s.plus i).plus (k - i)).word.toNat =
      ((s.plus i).word.toNat + (k - i)) % 0x100000000 := by
    rw [SeqNum.plus, UInt32.toNat_add, UInt32.toNat_ofNat']
    omega
  have hlt := (s.plus i).word.toNat_lt
  intro heq
  rw [Tracker.slotOf, Tracker.slotOf, hsplit, hword] at heq
  rcases Nat.le_total t.slots 0x100000000 with hle | hge
  · have hdvd : t.slots ∣ 0x100000000 :=
      dvd_of_isPowerOfTwo hp (isPowerOfTwo_shiftLeft 32) hle
    rw [Nat.mod_mod_of_dvd _ hdvd] at heq
    have hzero := Nat.sub_mod_eq_zero_of_mod_eq heq.symm
    rw [Nat.add_sub_cancel_left, Nat.mod_eq_of_lt (by omega)] at hzero
    omega
  · rw [Nat.mod_eq_of_lt (Nat.lt_of_lt_of_le hlt hge),
      Nat.mod_eq_of_lt (Nat.lt_of_lt_of_le (Nat.mod_lt _ (by decide)) hge)] at heq
    omega

namespace LockedEngine

/-! ## One packet -/

section Gate

variable {l mid : LockedEngine} {n : Nat}

theorem isWindowFull_iff : l.isWindowFull = true ↔ l.budget = 0 := by
  rw [isWindowFull, decide_eq_true_iff, budget, CongestionWindow.budget, Nat.sub_eq_zero_iff_le]
  rfl

/-- A numbered DATA packet has to pass the window first, and then to find its slot vacant. -/
theorem send_of_data {p : Packet} (hk : p.kind = .data) (now : Instant) :
    (l.send p now).1 =
      if l.budget = 0 then .error l.windowFull
      else if l.tracker.isVacant p.seq then .ok () else .error (.slotCollision p.seq) := by
  have hdata : p.isKind .data = true := beq_iff_eq.mpr hk
  rw [LockedEngine.send, if_neg (not_not_intro hdata)]
  simp only [isWindowFull_iff]
  split
  · rfl
  · cases hv : l.tracker.isVacant p.seq with
    | false =>
        rw [track_of_not_isVacant hv]
        rfl
    | true =>
        rw [track_of_isVacant hdata hv]
        rfl

/-! ## One payload after the other -/

/-- How many payloads will pass: as many as the window allows, as far as slots are vacant. -/
def room (l : LockedEngine) : Nat :=
  min l.budget (SeqNum.vacantFrom l.tracker.isVacant 0x100000000 l.numbering.upcoming)

/-- An engine whose table has more slots than its window allows packets. -/
structure Spacious (l : LockedEngine) : Prop where
  sound : l.Sound
  power : isPowerOfTwo l.tracker.slots = true
  windowSize_lt : l.config.windowSize.toNat < l.tracker.slots

/-- The engine `mid` comes from `l` by taking up `n` payloads. -/
structure TookUp (l : LockedEngine) (n : Nat) (mid : LockedEngine) : Prop where
  config : mid.config = l.config
  window : mid.window = l.window
  upcoming : mid.numbering.upcoming = l.numbering.upcoming.plus n
  size : mid.tracker.size = l.tracker.size + n
  slots : mid.tracker.slots = l.tracker.slots
  vacant : ∀ s, mid.tracker.isVacant s = true ↔ l.tracker.isVacant s = true ∧
    ∀ i < n, l.tracker.slotOf (l.numbering.upcoming.plus i) ≠ l.tracker.slotOf s

theorem tookUp_zero (l : LockedEngine) : l.TookUp 0 l where
  config := rfl
  window := rfl
  upcoming := (SeqNum.plus_zero _).symm
  size := rfl
  slots := rfl
  vacant _ := ⟨fun hv => ⟨hv, nofun⟩, And.left⟩

theorem TookUp.budget (h : l.TookUp n mid) : mid.budget = l.budget - n := by
  rw [LockedEngine.budget, LockedEngine.budget, h.window, h.config, h.size,
    CongestionWindow.budget, CongestionWindow.budget, Nat.sub_add_eq]

theorem budget_le (l : LockedEngine) : l.budget ≤ l.config.windowSize.toNat := by
  rw [LockedEngine.budget, CongestionWindow.budget, CongestionWindow.toNat_effective]
  omega

theorem Spacious.lt_of_lt_room (h : l.Spacious) (hn : n < l.room) :
    n < l.tracker.slots ∧ n < 0x100000000 := by
  have hlt := Nat.lt_of_lt_of_le (Nat.lt_of_lt_of_le hn (Nat.min_le_left _ _)) l.budget_le
  exact ⟨Nat.lt_trans hlt h.windowSize_lt, Nat.lt_trans hlt l.config.windowSize.toNat_lt⟩

theorem TookUp.isVacant (h : l.TookUp n mid) (hl : l.Spacious) (hn : n < l.room) :
    mid.tracker.isVacant mid.numbering.upcoming = true := by
  obtain ⟨hslots, hspace⟩ := hl.lt_of_lt_room hn
  rw [h.vacant, h.upcoming]
  refine ⟨SeqNum.vacant_of_lt (Nat.lt_of_lt_of_le hn (Nat.min_le_right _ _)), fun i hi => ?_⟩
  exact Tracker.slotOf_plus_ne hl.power _ hi hslots hspace

theorem TookUp.sendData (h : l.TookUp n mid) (hl : l.Spacious) (hn : n < l.room)
    (payload : Bytes) (now : Instant) :
    (mid.sendData payload now).1 = .ok (.data (l.numbering.upcoming.plus n) payload) ∧
      l.TookUp (n + 1) (mid.sendData payload now).2 := by
  have hfull : mid.isWindowFull = false := by
    have hlt := Nat.lt_of_lt_of_le hn (Nat.min_le_left _ _)
    rw [Bool.eq_false_iff, Ne, isWindowFull_iff, h.budget]
    omega
  have hv := h.isVacant hl hn
  rw [sendData_of_isVacant hfull hv]
  refine ⟨by rw [h.upcoming], h.config, h.window, ?_, ?_, ?_, fun s => ?_⟩
  · show mid.numbering.upcoming.next = _
    rw [h.upcoming, SeqNum.next_plus]
  · rw [Tracker.record_of_isVacant rfl hv]
    show mid.tracker.size + 1 = _
    rw [h.size, Nat.add_assoc]
  · rw [Tracker.record_of_isVacant rfl hv]
    exact h.slots
  · -- the one slot that is no longer vacant is that of the number just given out
    have hslot (s : SeqNum) : mid.tracker.slotOf s = l.tracker.slotOf s := by
      rw [Tracker.slotOf, Tracker.slotOf, h.slots]
    have hnew : mid.tracker.slotOf (Packet.data mid.numbering.upcoming payload).seq =
        l.tracker.slotOf (l.numbering.upcoming.plus n) := by
      rw [hslot, ← h.upcoming]
      rfl
    rw [Tracker.isVacant_record rfl hv, h.vacant, hnew, hslot, Nat.forall_lt_succ_right]
    constructor
    · rintro ⟨hne, hv, hall⟩
      exact ⟨hv, hall, hne⟩
    · rintro ⟨hv, hall, hne⟩
      exact ⟨hne, hv, hall⟩

/-- Without room, no payload is taken up: the window is full, or the next number's slot is
occupied. -/
theorem TookUp.sendData_of_room (h : l.TookUp l.room mid) (payload : Bytes) (now : Instant) :
    mid.sendData payload now = (.error mid.windowFull, mid) := by
  rcases Nat.le_total l.budget
      (SeqNum.vacantFrom l.tracker.isVacant 0x100000000 l.numbering.upcoming) with hle | hle
  · refine sendData_of_isWindowFull ?_ payload now
    rw [isWindowFull_iff, h.budget, LockedEngine.room, Nat.min_eq_left hle, Nat.sub_self]
  · have hlimit := Nat.lt_of_le_of_lt (Nat.le_trans hle l.budget_le)
      l.config.windowSize.toNat_lt
    refine sendData_of_not_isVacant ?_ payload now
    rw [Bool.eq_false_iff, Ne, h.vacant, h.upcoming, LockedEngine.room, Nat.min_eq_right hle,
      SeqNum.occupied_of_lt hlimit]
    exact fun hv => Bool.false_ne_true hv.1

end Gate

/-! ## The table of a run -/

/-- What a call does to the tracker is one of the tracker's own calls, or nothing. -/
theorem tracker_call {l l' : LockedEngine} {c : EngineCall} {answer : EngineAnswer}
    (hcall : (Engine.locked l).call c = (answer, .locked l')) :
    l'.tracker = l.tracker ∨ ∃ tc, l'.tracker = (l.tracker.call tc).2 := by
  cases c with
  | send p now =>
      have hl : (l.send p now).2 = l' := Engine.locked.inj (congrArg Prod.snd hcall)
      rcases send_cases l p now with ⟨result, heq, -⟩ | ⟨hk, hv, heq⟩
      · exact .inl (by rw [← hl, heq])
      · refine .inr ⟨.record p now, ?_⟩
        rw [← hl, heq, track_of_isVacant hk hv]
        rfl
  | sendData payload now =>
      have hl : (l.sendData payload now).2 = l' := Engine.locked.inj (congrArg Prod.snd hcall)
      rcases sendData_cases l payload now with heq | ⟨hfull, hv⟩
      · exact .inl (by rw [← hl, heq])
      · refine .inr ⟨.record (.data l.numbering.upcoming payload) now, ?_⟩
        rw [← hl, sendData_of_isVacant hfull hv]
        rfl
  | handleAck p now =>
      have hl : (l.handleAck p now).2 = l' := Engine.locked.inj (congrArg Prod.snd hcall)
      rcases handleAck_cases l p now with ⟨answer, heq, -⟩ | ⟨u, -, -, heq⟩
      · exact .inl (by rw [← hl, heq])
      · exact .inr ⟨.acknowledge p.ack, by rw [← hl, heq]; rfl⟩
  | receive p =>
      have hl : (l.receive p).2 = l' := Engine.locked.inj (congrArg Prod.snd hcall)
      exact .inl (by rw [← hl, receive_sending])
  | timedOut now =>
      have hl : (l.timedOut now).2 = l' := Engine.locked.inj (congrArg Prod.snd hcall)
      -- a scan that finds no packet overdue is a scan of the tracker all the same
      refine .inr ⟨.scan now l.roundTrip.timeout, ?_⟩
      rw [← hl]
      simp only [timedOut]
      split
      · rfl
      · rfl
  | nextNumber | onLoss | isUnacked | retries | budget | stats =>
      cases hcall
      exact .inl rfl

theorem slots_call {l l' : LockedEngine} {c : EngineCall} {answer : EngineAnswer}
    (hcall : (Engine.locked l).call c = (answer, .locked l')) :
    l'.tracker.slots = l.tracker.slots := by
  rcases tracker_call hcall with heq | ⟨tc, heq⟩
  · rw [heq]
  · rw [heq, Tracker.slots_call]

end LockedEngine

namespace Engine

def isVacant : Engine → SeqNum → Bool
  | .locked e, s => e.tracker.isVacant s
  | .lockFree e, s => e.isVacant s

/-- How many numbers from the next one on are vacant, one after the other. -/
def vacantAhead (e : Engine) : Nat :=
  SeqNum.vacantFrom e.isVacant 0x100000000 e.nextNumber.1

def sendCalls (sends : List (Bytes × Instant)) : List EngineCall :=
  sends.map fun send => .sendData send.1 send.2

section Follows

variable {e : Engine} {l mid : LockedEngine} {n : Nat}

theorem Follows.isVacant (h : e.Follows l) (s : SeqNum) : e.isVacant s = l.tracker.isVacant s := by
  cases e with
  | locked e => rw [Engine.isVacant, h.1]
  | lockFree f => exact (LockFreeEngine.Agrees.table h).isVacant h.sound.tracker s

theorem Follows.room (h : e.Follows l) : min e.budget e.vacantAhead = l.room := by
  have hvacant : e.isVacant = l.tracker.isVacant := funext h.isVacant
  have hnext : e.nextNumber.1 = l.numbering.upcoming := h.nextNumber.1
  rw [vacantAhead, hvacant, hnext, h.budget, LockedEngine.room]

theorem Follows.after_spacious (h : e.Follows l) (hl : l.Spacious) (calls : List EngineCall) :
    ∃ l', (e.after calls).Follows l' ∧ l'.Spacious ∧ l'.config = l.config := by
  induction calls generalizing e l with
  | nil => exact ⟨l, h, hl, rfl⟩
  | cons c rest ih =>
      obtain ⟨next, hcall, hf⟩ := h.call c
      have hconfig := LockedEngine.config_call hcall
      have hslots := LockedEngine.slots_call hcall
      have hnext : next.Spacious :=
        ⟨hf.sound, hslots ▸ hl.power, hconfig ▸ hslots ▸ hl.windowSize_lt⟩
      obtain ⟨last, hlast, hspacious, heq⟩ := ih hf hnext
      exact ⟨last, hlast, hspacious, heq.trans hconfig⟩

/-- After payloads one after the other, as many were taken up as there was room for. -/
theorem Follows.after_sends (h : e.Follows mid) (hm : l.TookUp n mid) (hl : l.Spacious)
    (hn : n ≤ l.room) (sends : List (Bytes × Instant)) :
    ∃ last, (e.after (sendCalls sends)).Follows last ∧
      l.TookUp (min (n + sends.length) l.room) last := by
  induction sends generalizing e mid n with
  | nil => exact ⟨mid, h, by rwa [List.length_nil, Nat.add_zero, Nat.min_eq_left hn]⟩
  | cons send rest ih =>
      obtain ⟨payload, now⟩ := send
      have hnext := (h.sendData payload now).2
      rcases Nat.lt_or_eq_of_le hn with hlt | rfl
      · obtain ⟨last, hlast, htook⟩ := ih hnext (hm.sendData hl hlt payload now).2 hlt
        refine ⟨last, hlast, ?_⟩
        rwa [List.length_cons, Nat.add_comm rest.length, ← Nat.add_assoc]
      · rw [hm.sendData_of_room] at hnext
        obtain ⟨last, hlast, htook⟩ := ih hnext hm (Nat.le_refl _)
        refine ⟨last, hlast, ?_⟩
        rwa [Nat.min_eq_right (Nat.le_add_right _ _)] at htook ⊢

end Follows

/-! ## Main result -/

/-- What an engine that took up the first payloads of a run answers to one more. -/
structure SendsOn (e : Engine) (windowSize : UInt32) (n : Nat) (mid : Engine) : Prop where
  /-- While there is room, the payload gets the next number. -/
  numbered : n < min e.budget e.vacantAhead → ∀ payload now,
    (mid.sendData payload now).1 = .ok (.data (e.nextNumber.1.plus n) payload)
  /-- After that, all payloads are refused. -/
  refused : min e.budget e.vacantAhead ≤ n → ∀ payload now,
    (mid.sendData payload now).1 =
      .error (.windowFull mid.tracked.length (min mid.window.size windowSize))
  budget : mid.budget = e.budget - min n (min e.budget e.vacantAhead)
  tracked : mid.tracked.length = e.tracked.length + min n (min e.budget e.vacantAhead)
  window : mid.window = e.window

/-- Which sends an engine lets through. -/
structure Gates (e : Engine) (windowSize : UInt32) : Prop where
  sendData : ∀ sends, e.SendsOn windowSize sends.length (e.after (sendCalls sends))
  /-- A packet that has a number needs room in the window first, and then its slot. -/
  data : ∀ p now, p.kind = .data → (e.send p now).1 =
    if e.budget = 0 then .error (.windowFull e.tracked.length (min e.window.size windowSize))
    else if e.isVacant p.seq then .ok () else .error (.slotCollision p.seq)
  /-- All other packets pass without a trace. -/
  control : ∀ p now, p.kind ≠ .data → e.send p now = (.ok (), e)

section Gates

variable {e : Engine} {l : LockedEngine}

theorem Follows.windowFull (h : e.Follows l) : l.windowFull =
    .windowFull e.tracked.length (min e.window.size l.config.windowSize) := by
  rw [h.length_tracked, h.window]
  rfl

theorem Follows.sendsOn (h : e.Follows l) (hl : l.Spacious) (sends : List (Bytes × Instant)) :
    e.SendsOn l.config.windowSize sends.length (e.after (sendCalls sends)) := by
  obtain ⟨last, hlast, htook⟩ := h.after_sends l.tookUp_zero hl (Nat.zero_le _) sends
  rw [Nat.zero_add] at htook
  constructor
  case numbered =>
    intro hn payload now
    rw [h.room] at hn
    rw [Nat.min_eq_left (Nat.le_of_lt hn)] at htook
    rw [(hlast.sendData payload now).1, (htook.sendData hl hn payload now).1, h.nextNumber.1]
    rfl
  case refused =>
    intro hn payload now
    rw [h.room] at hn
    rw [Nat.min_eq_right hn] at htook
    rw [(hlast.sendData payload now).1, htook.sendData_of_room, hlast.windowFull, htook.config]
  case budget => rw [h.room, hlast.budget, htook.budget, h.budget]
  case tracked => rw [h.room, hlast.length_tracked, htook.size, h.length_tracked]
  case window => rw [hlast.window, htook.window, h.window]

theorem send_of_control (e : Engine) {p : Packet} (hk : p.kind ≠ .data) (now : Instant) :
    e.send p now = (.ok (), e) := by
  have hdata : ¬ p.isKind .data = true := fun h => hk (beq_iff_eq.mp h)
  cases e with
  | locked e =>
      rw [Engine.send, LockedEngine.send, if_pos hdata]
      rfl
  | lockFree f =>
      rw [Engine.send, LockFreeEngine.send, if_pos hdata]
      rfl

theorem Follows.gates (h : e.Follows l) (hl : l.Spacious) : e.Gates l.config.windowSize where
  sendData sends := h.sendsOn hl sends
  data p now hk := by
    rw [(h.send p now).1, LockedEngine.send_of_data hk, h.windowFull, h.budget, h.isVacant]
  control p now hk := e.send_of_control hk now

end Gates

/-- Whatever calls were made, an engine of either kind lets through exactly what the window and
the slots allow. -/
theorem gates_of_every_run {kind : EngineKind} {config : Reliability} {e : Engine}
    (hnew : new kind config = .ok e) (calls : List EngineCall) :
    (e.after calls).Gates config.windowSize := by
  obtain ⟨hv, hf⟩ := follows_start hnew
  have hstart : (LockedEngine.start config).Spacious := by
    refine ⟨hf.sound, hv.isPowerOfTwo_tableSize, ?_⟩
    have htable := hv.checks.2.2.2.2.2.1
    show config.windowSize.toNat < config.tableSize
    omega
  obtain ⟨l, hl, hspacious, hconfig⟩ := hf.after_spacious hstart calls
  have hgates := hl.gates hspacious
  rwa [hconfig] at hgates

/-- A packet with a number of its own, two numbers ahead of the next one. -/
def blockedRun : List EngineCall := [.send (.data ⟨3⟩ [7]) 0]

theorem gates_of_blockedRun :
    ∃ e, new .lockFree fourInFlight = .ok e ∧ (e.after blockedRun).Gates 4 ∧
      (e.after blockedRun).budget = 3 ∧ (e.after blockedRun).vacantAhead = 2 := by
  obtain ⟨e, hnew⟩ : ∃ e, new .lockFree fourInFlight = .ok e := ⟨_, rfl⟩
  refine ⟨e, hnew, gates_of_every_run hnew blockedRun, ?_, ?_⟩
  · cases hnew
    decide +kernel
  · cases hnew
    decide +kernel

end Engine

end ReliableDatagram
