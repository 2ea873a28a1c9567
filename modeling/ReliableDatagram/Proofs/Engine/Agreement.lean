/-
A lock-free engine in the state of a locked one.

The relation ties the parts together: the slot table holds the packets of the
tracker, the reserved room is the number of packets in flight, the packed
words hold window and estimate, the queue is empty, the drain flag free, and
the published position is the ordering buffer's.  Every operation gives equal
results on related states and leads to related states, also where it fails:
a reservation that finds no slot is given back.

This is a relation between the states in which nobody is at work on the engine.
It is enough for calls that come one after the other; what happens while the flag
is held is the subject of the module on draining.

The relation carries the soundness of the locked engine with it.  It is needed to
unpack words: a window that was packed comes back only if it is in its range, and
the counter of packets in flight can be raised without wrapping around only
because it stays below the peer's window.

Two orders differ between the engines.  The table lists packets by slot and the
tracker by time of recording, so a scan finds the same offers in another order and
sorting makes them equal.  And the lock-free engine reserves room before it takes
a number; where the slot of that number is taken, both engines report a full
window with the same figures.
-/
import ReliableDatagram.Engine.LockFree
import ReliableDatagram.Proofs.Engine.Locked
import ReliableDatagram.Proofs.PowerOfTwo
import ReliableDatagram.Proofs.Sending.Mirror

namespace ReliableDatagram.LockFreeEngine

/-- A lock-free engine in the state of a locked one. -/
structure Agrees (f : LockFreeEngine) (l : LockedEngine) : Prop where
  sound : l.Sound
  config : f.config = l.config
  numbering : f.numbering = l.numbering
  table : f.table.Mirrors l.tracker
  inFlight : f.inFlight.toNat = l.tracker.size
  highest : f.highest = l.tracker.highest
  window : f.window = l.window
  roundTrip : f.roundTrip = l.roundTrip
  idle : f.inbound.size = 0
  free : f.draining = false
  ordering : f.ordering = l.ordering
  published : f.published = l.ordering.position
  tally : f.tally = l.tally

/-! ## Packed words -/

theorem highest_raiseHighest (f : LockFreeEngine) (s : SeqNum) :
    (f.raiseHighest s).highest = some (SeqNum.highestWith f.highest s) := by
  have hlt := (SeqNum.highestWith f.highest s).word.toNat_lt
  have hnat : (f.raiseHighest s).highestWord.toNat =
      (SeqNum.highestWith f.highest s).word.toNat := by
    simp only [raiseHighest, UInt64.toNat_ofNat']
    omega
  -- a recorded number is a 32-bit word, so it is never taken for "no number"
  have hne : (f.raiseHighest s).highestWord ≠ nothingRecorded := by
    intro h
    rw [h] at hnat
    simp only [nothingRecorded, UInt64.reduceToNat] at hnat
    omega
  rw [highest, if_neg hne, hnat, UInt32.ofNat_toNat]

/-! ## The start -/

theorem isPowerOfTwo_queueCapacity (n : Nat) :
    isPowerOfTwo (max 2 (powerOfTwoAbove n)) = true := by
  rcases Nat.le_total (powerOfTwoAbove n) 2 with hle | hle
  · rw [Nat.max_eq_left hle]
    exact isPowerOfTwo_shiftLeft 1
  · rw [Nat.max_eq_right hle]
    exact isPowerOfTwo_powerOfTwoAbove n

theorem exists_idleQueue {α : Type} {capacity : Nat} (hp : isPowerOfTwo capacity = true)
    (h : 2 ≤ capacity) :
    ∃ q : BoundedQueue α, BoundedQueue.new capacity = .ok q ∧ q.size = 0 := by
  refine ⟨_, by rw [BoundedQueue.new, if_pos ⟨hp, h⟩], ?_⟩
  simp only [BoundedQueue.size, UInt64.sub_self]
  exact Nat.zero_min _

/-- With settings that pass their checks and a queue in range, an engine starts like a
locked one. -/
theorem exists_new {config : Reliability} (h : config.Valid)
    (hc : config.receiveCapacity ≤ 0x8000000000000000) :
    ∃ f, new config = .ok f ∧ f.Agrees (LockedEngine.start config) := by
  have hcap : queueCapacity config.receiveCapacity =
      .ok (max 2 (powerOfTwoAbove config.receiveCapacity)) := by
    rw [queueCapacity, if_neg (by omega)]
  have htable : SlotTable.new (α := Unacked) config.tableSize = .ok ⟨config.tableSize, []⟩ := by
    rw [SlotTable.new, if_pos h.isPowerOfTwo_tableSize]
  obtain ⟨inbound, hqueue, hidle⟩ := exists_idleQueue (α := Inbound)
    (isPowerOfTwo_queueCapacity config.receiveCapacity)
    (Nat.le_max_left 2 (powerOfTwoAbove config.receiveCapacity))
  have hwindow := h.firstWindow_within.ofBits_toBits h.windowSize_le
  refine ⟨_, by simp only [new, hcap, htable, bind, Except.bind, hqueue]; rfl, ?_⟩
  exact {
    sound := LockedEngine.sound_start h
    config := rfl
    numbering := rfl
    table := SlotTable.mirrors_new _
    inFlight := rfl
    highest := rfl
    window := hwindow
    roundTrip := RoundTrip.ofBits_toBits _
    idle := hidle
    free := rfl
    ordering := rfl
    published := rfl
    tally := rfl }

theorem agrees_of_allocate {config : Reliability} {f : LockFreeEngine} (h : config.Valid)
    (hf : allocate config = .ok f) : f.Agrees (LockedEngine.start config) := by
  by_cases hc : config.receiveCapacity ≤ 0x8000000000000000
  · obtain ⟨f', hnew, ha⟩ := exists_new h hc
    simp only [allocate, bind, Except.bind] at hf
    split at hf
    · cases hf
    · split at hf
      · cases hf
      · split at hf
        · cases hf
        · rw [hnew] at hf
          cases hf
          exact ha
  · have hcap : queueCapacity config.receiveCapacity = .error .wordOverflow := by
      rw [queueCapacity, if_pos (by omega)]
    simp only [allocate, hcap, bind, Except.bind] at hf
    cases hf

section Agrees

variable {f : LockFreeEngine} {l : LockedEngine}

theorem Agrees.effectiveWindow (h : f.Agrees l) : f.effectiveWindow = l.effectiveWindow := by
  rw [LockFreeEngine.effectiveWindow, h.window, h.config, LockedEngine.effectiveWindow]

theorem Agrees.nextNumber (h : f.Agrees l) :
    f.nextNumber.1 = l.nextNumber.1 ∧ f.nextNumber.2.Agrees l.nextNumber.2 := by
  have hn : f.numbering.allocate = l.numbering.allocate := by rw [h.numbering]
  exact ⟨congrArg Prod.fst hn,
    { h with sound := { h.sound with }, numbering := congrArg Prod.snd hn }⟩

/-! ## Sending -/

theorem Agrees.reserve_of_full (h : f.Agrees l) (hfull : l.isWindowFull = true) :
    f.reserve = (.error l.windowFull, f) := by
  have : ¬ f.inFlight < f.effectiveWindow := by
    rw [UInt32.lt_iff_toNat_lt, h.effectiveWindow, h.inFlight]
    simpa [LockedEngine.isWindowFull] using hfull
  rw [reserve, if_neg this, LockedEngine.windowFull, h.inFlight, h.effectiveWindow]

theorem Agrees.reserve_of_room (h : f.Agrees l) (hroom : l.isWindowFull = false) :
    f.reserve = (.ok (), { f with inFlight := f.inFlight + 1 }) := by
  have : f.inFlight < f.effectiveWindow := by
    rw [UInt32.lt_iff_toNat_lt, h.effectiveWindow, h.inFlight]
    simpa [LockedEngine.isWindowFull] using hroom
  rw [reserve, if_pos this]

theorem unreserve_reserved (f : LockFreeEngine) :
    unreserve { f with inFlight := f.inFlight + 1 } = f := by
  simp only [unreserve, UInt32.add_sub_cancel]

theorem Agrees.toNat_inFlight_succ (h : f.Agrees l) (hroom : l.isWindowFull = false) :
    (f.inFlight + 1).toNat = l.tracker.size + 1 := by
  have hlt := LockedEngine.size_lt_of_not_isWindowFull hroom
  have := l.config.windowSize.toNat_lt
  rw [UInt32.toNat_add, h.inFlight]
  exact Nat.mod_eq_of_lt (by simp only [UInt32.reduceToNat]; omega)

theorem track_of_isVacant {p : Packet} (hk : p.isKind .data = true)
    (h : f.Agrees l) (hroom : l.isWindowFull = false) (hv : l.tracker.isVacant p.seq = true)
    (now : Instant) :
    (track { f with inFlight := f.inFlight + 1 } p now).1 = .ok () ∧
      (track { f with inFlight := f.inFlight + 1 } p now).2.Agrees (l.track p now).2 := by
  obtain ⟨table, hok, hm⟩ := h.table.record h.sound.tracker hv now
    (some (.highestWith l.tracker.highest p.seq))
  have hs := h.sound.track hroom hk now
  rw [LockedEngine.track_of_isVacant hk hv, Tracker.record_of_isVacant hk hv] at hs ⊢
  simp only [track, keyOf, hok]
  have hh := highest_raiseHighest f p.seq
  rw [h.highest] at hh
  exact ⟨trivial, { h with
    sound := hs
    table := hm
    inFlight := h.toNat_inFlight_succ hroom
    highest := hh
    tally := by rw [h.tally] }⟩

theorem Agrees.send (h : f.Agrees l) (p : Packet) (now : Instant) :
    (f.send p now).1 = (l.send p now).1 ∧ (f.send p now).2.Agrees (l.send p now).2 := by
  rw [LockFreeEngine.send, LockedEngine.send]
  by_cases hk : p.isKind .data = true
  · rw [if_neg (not_not_intro hk), if_neg (not_not_intro hk)]
    cases hfull : l.isWindowFull with
    | true =>
        rw [h.reserve_of_full hfull, if_pos rfl]
        exact ⟨rfl, h⟩
    | false =>
        rw [h.reserve_of_room hfull, if_neg Bool.false_ne_true]
        cases hv : l.tracker.isVacant p.seq with
        | true =>
            have ht := track_of_isVacant hk h hfull hv now
            simp only [LockedEngine.track_of_isVacant hk hv] at ht ⊢
            exact ht
        | false =>
            have hi := h.table.tryInsert_of_not_isVacant h.sound.tracker hv (.sent p now)
            simp only [LockedEngine.track_of_not_isVacant hv, track, keyOf, hi,
              unreserve_reserved]
            exact ⟨trivial, h⟩
  · rw [if_pos hk, if_pos hk]
    exact ⟨rfl, h⟩

theorem sendData_of_refused {r : LockFreeEngine} (hr : f.reserve = (.ok (), r))
    (hv : r.isVacant r.numbering.upcoming = false) (payload : Bytes) (now : Instant) :
    f.sendData payload now =
      (.error (.windowFull r.unreserve.inFlight.toNat r.unreserve.effectiveWindow),
        r.unreserve) := by
  simp only [LockFreeEngine.sendData, hr, Numbering.allocateIf_of_refused hv]

theorem sendData_of_accepted {r f' : LockFreeEngine} (hr : f.reserve = (.ok (), r))
    (hv : r.isVacant r.numbering.upcoming = true) {payload : Bytes} {now : Instant}
    (ht : { r with numbering := ⟨r.numbering.upcoming.next⟩ }.track
      (.data r.numbering.upcoming payload) now = (.ok (), f')) :
    f.sendData payload now = (.ok (.data r.numbering.upcoming payload), f') := by
  simp only [LockFreeEngine.sendData, hr, Numbering.allocateIf, hv, if_true, ht]

/-- Where the next number's slot is occupied, both report a full window and use up nothing. -/
theorem Agrees.sendData (h : f.Agrees l) (payload : Bytes) (now : Instant) :
    (f.sendData payload now).1 = (l.sendData payload now).1 ∧
      (f.sendData payload now).2.Agrees (l.sendData payload now).2 := by
  cases hfull : l.isWindowFull with
  | true =>
      have hf : f.sendData payload now = (.error l.windowFull, f) := by
        simp only [LockFreeEngine.sendData, h.reserve_of_full hfull]
      rw [LockedEngine.sendData_of_isWindowFull hfull, hf]
      exact ⟨rfl, h⟩
  | false =>
      have hr := h.reserve_of_room hfull
      have hvac : f.isVacant f.numbering.upcoming = l.tracker.isVacant l.numbering.upcoming := by
        rw [h.numbering]
        exact h.table.isVacant h.sound.tracker _
      cases hv : l.tracker.isVacant l.numbering.upcoming with
      | false =>
          rw [LockedEngine.sendData_of_not_isVacant hv, sendData_of_refused hr (hvac.trans hv),
            unreserve_reserved, h.inFlight, h.effectiveWindow]
          exact ⟨rfl, h⟩
      | true =>
          have hnext : Agrees { f with numbering := ⟨f.numbering.upcoming.next⟩ }
              { l with numbering := ⟨l.numbering.upcoming.next⟩ } :=
            { h with sound := { h.sound with }, numbering := by rw [h.numbering] }
          obtain ⟨hok, ht⟩ := track_of_isVacant (p := .data f.numbering.upcoming payload) rfl
            hnext hfull (by rw [h.numbering]; exact hv) now
          rw [LockedEngine.sendData_of_isVacant hfull hv,
            sendData_of_accepted hr (hvac.trans hv) (Prod.ext hok rfl)]
          rw [h.numbering] at ht ⊢
          rw [LockedEngine.track_of_isVacant rfl hv] at ht
          exact ⟨rfl, ht⟩

/-! ## Looking up, acknowledging, losing -/

theorem Agrees.inspect (h : f.Agrees l) {α : Type} (s : SeqNum) (look : Unacked → α) :
    f.inspect s look = (l.tracker.find? s).map look :=
  h.table.withEntry h.sound.tracker s look

theorem Agrees.isUnacked (h : f.Agrees l) (s : SeqNum) : f.isUnacked s = l.isUnacked s := by
  simp [LockFreeEngine.isUnacked, h.inspect, LockedEngine.isUnacked, Tracker.isUnacked]

theorem Agrees.retries? (h : f.Agrees l) (s : SeqNum) : f.retries? s = l.retries? s :=
  h.inspect s _

theorem Agrees.budget (h : f.Agrees l) : f.budget = l.budget := by
  rw [LockFreeEngine.budget, LockedEngine.budget, h.window, h.config, h.inFlight]

theorem Agrees.stats (h : f.Agrees l) : f.stats = l.stats := by
  simp only [LockFreeEngine.stats, LockedEngine.stats, h.tally, h.window, h.roundTrip, h.inFlight]

-- for any word, since the kernel would compute with a packed one
theorem Agrees.withWindow (h : f.Agrees l) {bits : UInt64} {w : CongestionWindow}
    (hw : w.Within l.config.windowSize) (hb : CongestionWindow.ofBits bits = w) :
    Agrees { f with windowBits := bits } { l with window := w } :=
  { h with sound := { h.sound with window := hw }, window := hb }

theorem Agrees.updateWindow (h : f.Agrees l) {g : CongestionWindow → CongestionWindow}
    (hg : (g l.window).Within l.config.windowSize) :
    (f.updateWindow g).Agrees { l with window := g l.window } := by
  rw [LockFreeEngine.updateWindow, h.window]
  exact h.withWindow hg (hg.ofBits_toBits h.sound.windowSize_le)

theorem Agrees.onLoss (h : f.Agrees l) : f.onLoss.Agrees l.onLoss :=
  h.updateWindow (h.sound.window.onLoss h.sound.windowSize_le)

theorem Agrees.withRoundTrip (h : f.Agrees l) {bits : UInt64} {r : RoundTrip}
    (hb : RoundTrip.ofBits bits = r) :
    Agrees { f with roundTripBits := bits } { l with roundTrip := r } :=
  { h with sound := { h.sound with }, roundTrip := hb }

theorem Agrees.updateRoundTrip (h : f.Agrees l) (g : RoundTrip → RoundTrip) :
    (f.updateRoundTrip g).Agrees { l with roundTrip := g l.roundTrip } := by
  rw [LockFreeEngine.updateRoundTrip, h.roundTrip]
  exact h.withRoundTrip (RoundTrip.ofBits_toBits _)

theorem Agrees.unreserve (h : f.Agrees l) {tracker : Tracker} {table : SlotTable Unacked}
    (hm : table.Mirrors tracker) (hw : tracker.WellFormed)
    (hh : tracker.highest = l.tracker.highest) (hsize : tracker.size + 1 = l.tracker.size) :
    (LockFreeEngine.unreserve { f with table }).Agrees { l with tracker } := by
  have hle := h.sound.size_le
  have hin : (f.inFlight - 1).toNat = tracker.size := by
    have h1 : (1 : UInt32) ≤ f.inFlight := by
      rw [UInt32.le_iff_toNat_le, h.inFlight, ← hsize]
      simp only [UInt32.reduceToNat]
      omega
    rw [UInt32.toNat_sub_of_le _ _ h1, h.inFlight, ← hsize]
    simp only [UInt32.reduceToNat, Nat.add_sub_cancel]
  exact { h with
    sound := { h.sound with tracker := hw, size_le := by simp only; omega }
    table := hm
    inFlight := hin
    highest := h.highest.trans hh.symm }

theorem acknowledged_eq (h : f.config = l.config) (sentAt now : Instant) :
    f.acknowledged sentAt now =
      (f.unreserve.updateRoundTrip (l.config.sampled · (.between sentAt now))).updateWindow
        l.config.grown := by
  rw [acknowledged, h]

theorem Agrees.handleAck (h : f.Agrees l) (p : Packet) (now : Instant) :
    (f.handleAck p now).1 = (l.handleAck p now).1 ∧
      (f.handleAck p now).2.Agrees (l.handleAck p now).2 := by
  rw [LockFreeEngine.handleAck, LockedEngine.handleAck]
  by_cases ha : p.hasFlag .ack = true
  · rw [if_neg (not_not_intro ha), if_neg (not_not_intro ha)]
    obtain ⟨table, hdone, hm⟩ := h.table.removeIf h.sound.tracker p.ack
    have hw := h.sound.tracker.acknowledge p.ack
    simp only [keyOf, hdone, Attempt.getD]
    cases hf : l.tracker.find? p.ack.prev with
    | none =>
        rw [Tracker.acknowledge_of_find?_none hf] at hm ⊢
        exact ⟨by rw [h.numbering, h.highest], { h with sound := { h.sound with }, table := hm }⟩
    | some u =>
        have hsize : (l.tracker.acknowledge p.ack).2.size + 1 = l.tracker.size :=
          Tracker.size_acknowledge (u := u) (by simp [Tracker.acknowledge, hf])
        rw [Tracker.acknowledge_of_find?_some h.sound.tracker hf] at hm hw hsize ⊢
        have hu := h.unreserve hm hw rfl hsize
        have hr := hu.updateRoundTrip (l.config.sampled · (.between u.sentAt now))
        have hg := hr.updateWindow (g := l.config.grown)
          (Reliability.grown_within hr.sound.window)
        refine ⟨rfl, ?_⟩
        show Agrees (acknowledged { f with table } u.sentAt now) _
        rw [acknowledged_eq (f := { f with table }) (l := l) h.config]
        exact hg
  · rw [if_pos ha, if_pos ha]
    exact ⟨rfl, h⟩

/-! ## Scanning -/

theorem offer?_packet {u : Unacked} {now : Instant} {timeout : Duration} {o : Offer}
    (h : u.offer? now timeout = some o) : o = ⟨u.packet, u.retries + 1⟩ := by
  unfold Unacked.offer? at h
  split at h
  · exact (Option.some.inj h).symm
  · cases h

theorem Agrees.timedOut (h : f.Agrees l) (now : Instant) :
    (f.timedOut now).1 = (l.timedOut now).1 ∧
      (f.timedOut now).2.Agrees (l.timedOut now).2 := by
  obtain ⟨found, table, hdone, hp, hm⟩ := h.table.visit now l.roundTrip.timeout
  have hw := h.sound.tracker
  have hoffers : Offer.inOrder f.highest (found.filterMap id) =
      (l.tracker.scan now l.roundTrip.timeout).1 := by
    rw [h.highest, Tracker.scan]
    cases hh : l.tracker.highest with
    | none =>
        rw [hw.recorded hh, List.filterMap_nil] at hp
        rw [hw.recorded hh, List.perm_nil.mp hp]
        rfl
    | some s =>
        -- offers of one number would be of one slot, and a slot holds one packet
        refine Offer.inOrder_eq_of_perm s hp ?_
        intro a ha b hb hseq
        obtain ⟨u, hu, hua⟩ := List.mem_filterMap.mp (hp.mem_iff.mp ha)
        obtain ⟨v, hv, hvb⟩ := List.mem_filterMap.mp (hp.mem_iff.mp hb)
        rw [offer?_packet hua, offer?_packet hvb] at hseq ⊢
        rw [hw.eq_of_slotOf hu hv (by rw [hseq])]
  have hs : LockFreeEngine.Agrees { f with table }
      { l with tracker := (l.tracker.scan now l.roundTrip.timeout).2 } :=
    { h with
      sound := { h.sound with
        tracker := hw.scan now _
        size_le := by simpa only [Tracker.size_scan] using h.sound.size_le }
      table := hm
      inFlight := by rw [Tracker.size_scan, h.inFlight] }
  simp only [LockFreeEngine.timedOut, LockedEngine.timedOut, h.roundTrip, hdone, Attempt.getD,
    hoffers]
  split
  · exact ⟨rfl, hs⟩
  · refine ⟨rfl, Agrees.onLoss ?_⟩
    exact { hs with sound := { hs.sound with }, tally := by rw [h.tally] }

/-! ## Receiving -/

theorem drainQueue_of_idle (hidle : f.inbound.size = 0) : f.drainQueue = f := by
  rw [drainQueue, hidle]
  rfl

theorem process_frame (f : LockFreeEngine) (w : Work) :
    (f.process w).2 = { f with
      ordering := (f.process w).2.ordering
      published := (f.process w).2.published
      tally := (f.process w).2.tally } := by
  cases w with
  | data p =>
      simp only [process]
      split
      all_goals rfl
  | resync target forward =>
      cases forward
      all_goals rfl

theorem process_flagged (f : LockFreeEngine) (w : Work) (flag : Bool) :
    process { f with draining := flag } w =
      ((f.process w).1, { (f.process w).2 with draining := flag }) := by
  cases w with
  | data p =>
      simp only [process]
      split
      all_goals rfl
  | resync target forward =>
      cases forward
      all_goals rfl

/-- With the flag free and nothing queued, a caller works off its own item only. -/
theorem receiveWork_eq (hfree : f.draining = false) (hidle : f.inbound.size = 0) (w : Work) :
    f.receiveWork w = .done (f.process w) := by
  have hacq : f.acquire = .done { f with draining := true } := by
    rw [acquire, hfree]
    rfl
  have hinb : (f.process w).2.inbound.size = 0 := by
    rw [process_frame]
    exact hidle
  have hdrain := drainQueue_of_idle (f := { (f.process w).2 with draining := true }) hinb
  have hflag : (f.process w).2.draining = false := by
    rw [process_frame]
    exact hfree
  rw [receiveWork, hacq, Attempt.map]
  simp only [process_flagged, hdrain, release]
  rw [← hflag]

theorem Agrees.withOrdering (h : f.Agrees l) (b : OrderingBuffer) {t u : Tally} (ht : t = u) :
    Agrees { f with ordering := b, published := b.position, tally := t }
      { l with ordering := b, tally := u } :=
  { h with sound := { h.sound with }, ordering := rfl, published := rfl, tally := ht }

theorem Agrees.process_data (h : f.Agrees l) (p : Packet) :
    (f.process (.data p)).1 = (l.receiveData p).1 ∧
      (f.process (.data p)).2.Agrees (l.receiveData p).2 := by
  rw [process, LockedEngine.receiveData, h.ordering]
  cases hd : l.ordering.receive p with
  | mk delivery b =>
      cases delivery with
      | duplicate => exact ⟨rfl, h.withOrdering b h.tally⟩
      | overflow =>
          have hb := OrderingBuffer.receive_of_overflow (b := l.ordering) (p := p) (by rw [hd])
          rw [hd, Prod.mk.injEq] at hb
          refine ⟨rfl, ?_⟩
          rw [hb.2]
          exact { h with sound := { h.sound with }, ordering := rfl }
      | accepted released => exact ⟨rfl, h.withOrdering b (by rw [h.tally])⟩

theorem Agrees.process_resync (h : f.Agrees l) (p : Packet) :
    (f.process (.resync p.seq.next (p.hasFlag .ack))).1 = (l.receiveSyn p).1 ∧
      (f.process (.resync p.seq.next (p.hasFlag .ack))).2.Agrees (l.receiveSyn p).2 := by
  rw [LockedEngine.receiveSyn]
  cases p.hasFlag .ack with
  | true =>
      simp only [process, h.ordering]
      exact ⟨rfl, h.withOrdering _ h.tally⟩
  | false =>
      simp only [process, h.ordering]
      exact ⟨rfl, h.withOrdering _ h.tally⟩

/-- A packet from before the published position is a duplicate for the buffer, too. -/
theorem Agrees.receiveData_of_isBefore (h : f.Agrees l) {p : Packet}
    (hb : p.seq.isBefore f.published = true) : l.receiveData p = (.ok [], l) := by
  have hd : l.ordering.isDuplicate p.seq = true := by
    rw [h.published] at hb
    simp [OrderingBuffer.isDuplicate, hb]
  rw [LockedEngine.receiveData, OrderingBuffer.receive_of_isDuplicate hd]

theorem Agrees.receive (h : f.Agrees l) (p : Packet) :
    (f.receive p).1 = (l.receive p).1 ∧ (f.receive p).2.Agrees (l.receive p).2 := by
  rw [LockFreeEngine.receive, LockedEngine.receive, workOf?]
  cases p.kind with
  | data =>
      cases hb : p.seq.isBefore f.published with
      | true =>
          simp only [h.receiveData_of_isBefore hb, if_true]
          exact ⟨trivial, h⟩
      | false =>
          simp only [Bool.false_eq_true, if_false, receiveWork_eq h.free h.idle, Attempt.getD]
          exact h.process_data p
  | syn =>
      simp only [receiveWork_eq h.free h.idle, Attempt.getD]
      exact h.process_resync p
  | ack => exact ⟨rfl, h⟩
  | fin => exact ⟨rfl, h⟩
  | rst => exact ⟨rfl, h⟩

end Agrees

end ReliableDatagram.LockFreeEngine
