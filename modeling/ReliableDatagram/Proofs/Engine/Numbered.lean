/-
The numbers of an engine that numbers all DATA itself.

Numbers are then handed out one after the other.  The next one waits until
the packet that has its slot is acknowledged, so every packet in flight is
among the last numbers, as many of them as the table has slots.  The table
has at most half as many slots as there are numbers; hence no packet in flight
can be mistaken for one that is still to come, however often the numbers wrap
around.

`Numbers` is the invariant, with the count of numbers handed out so far.  That
count has no bound, and a number in flight is named by a count, not by the word it
is; two counts less than the number of slots apart have different words and
different slots.  The step that needs all of this is the one payload that is taken
up: its slot was vacant, so the oldest packet that could still be in flight is
not, and the range moves on by one.  Every other operation hands out nothing and
keeps or shrinks what is in flight.

For an acknowledgement the count tells on which side its packet lies.  Ahead of
the last number means a packet that was never sent, which is an error; in flight
means that it is taken; and all others are of no use, whether they are old or from
half the space away.

Main statement: the number of each packet is its count, no slot collides, and
an acknowledgement is answered by where its packet stands: in flight, ahead of
all that was sent, or anywhere else.
-/
import ReliableDatagram.Proofs.Engine.Refusals
import ReliableDatagram.Proofs.Engine.Stream

namespace ReliableDatagram

/-- Whether a call leaves it to the engine to number DATA. -/
def EngineCall.leavesNumbering : EngineCall → Bool
  | .nextNumber => false
  | .send p _ => ! p.isKind .data
  | _ => true

/-- The packet that the engine has numbered. -/
def EngineAnswer.packet? : EngineAnswer → Option Packet
  | .numbered (.ok p) => some p
  | _ => none

/-- Whether a call asks for a number for its payload. -/
def EngineCall.isSendData : EngineCall → Bool
  | .sendData _ _ => true
  | _ => false

theorem EngineCall.exists_of_isSendData {c : EngineCall} (h : c.isSendData = true) :
    ∃ payload now, c = .sendData payload now := by
  cases c with
  | sendData payload now => exact ⟨payload, now, rfl⟩
  | _ => cases h

theorem Engine.call_ne_numbered {c : EngineCall} (h : c.isSendData = false) (e : Engine)
    (result : Except EngineError Packet) : (e.call c).1 ≠ .numbered result := by
  intro heq
  cases c with
  | sendData payload now => cases h
  | _ => cases heq

theorem EngineAnswer.packet?_eq_none {answer : EngineAnswer}
    (h : ∀ result, answer ≠ .numbered result) : answer.packet? = none := by
  cases answer with
  | numbered result => exact absurd rfl (h result)
  | _ => rfl

namespace LockedEngine

/-- `n` numbers were handed out, and what is in flight is among the last of them, as many as
there are slots. -/
structure Numbers (e : LockedEngine) (slots n : Nat) : Prop where
  sound : e.Sound
  table : e.tracker.slots = slots
  upcoming : e.numbering.upcoming = SeqNum.zero.plus (n + 1)
  highest : ∀ s ∈ e.tracker.highest, s = SeqNum.zero.plus n
  recent : ∀ u ∈ e.tracker.entries,
    ∃ k, 0 < k ∧ k ≤ n ∧ n < k + slots ∧ u.packet.seq = SeqNum.zero.plus k

theorem numbers_start {config : Reliability} (h : config.Valid) :
    (start config).Numbers config.tableSize 0 :=
  ⟨sound_start h, rfl, rfl, nofun, nofun⟩

section Numbers

variable {e l : LockedEngine} {slots n : Nat} {p : Packet}

theorem Numbers.highestIssued (h : e.Numbers slots n) :
    e.numbering.highestIssued e.tracker.highest = SeqNum.zero.plus n := by
  have hlast : e.numbering.lastAllocated = SeqNum.zero.plus n := by
    rw [Numbering.lastAllocated, h.upcoming, SeqNum.prev_plus_succ]
  cases hh : e.tracker.highest with
  | none => exact hlast
  | some s =>
      rw [Numbering.highestIssued, hlast, h.highest s hh, SeqNum.latest, ite_self]

theorem Numbers.of_frame (h : e.Numbers slots n) (hs : l.Sound)
    (hslots : l.tracker.slots = e.tracker.slots) (hn : l.numbering = e.numbering)
    (hh : l.tracker.highest = e.tracker.highest)
    (hu : ∀ u ∈ l.tracker.entries, ∃ v ∈ e.tracker.entries, v.packet = u.packet) :
    l.Numbers slots n := by
  refine ⟨hs, hslots.trans h.table, hn ▸ h.upcoming, hh ▸ h.highest, ?_⟩
  intro u hm
  obtain ⟨v, hv, heq⟩ := hu u hm
  exact heq ▸ h.recent v hv

/-! ## Taking up a payload -/

/-- The oldest number that may be in flight has the slot of the next one. -/
theorem Numbers.lt_of_isVacant (h : e.Numbers slots n) (hd : slots ∣ 0x100000000)
    (hv : e.tracker.isVacant e.numbering.upcoming = true) {u : Unacked}
    (hu : u ∈ e.tracker.entries) {k : Nat} (hseq : u.packet.seq = SeqNum.zero.plus k)
    (hk : n < k + slots) : n + 1 < k + slots := by
  refine Nat.lt_of_le_of_ne hk ?_
  intro heq
  -- as many numbers back as there are slots, and that divides the space: the same slot
  refine Tracker.isVacant_iff.mp hv u hu ?_
  rw [Tracker.slotOf, Tracker.slotOf, h.table, h.upcoming, hseq, SeqNum.toNat_zero_plus,
    SeqNum.toNat_zero_plus, Nat.mod_mod_of_dvd _ hd, Nat.mod_mod_of_dvd _ hd, heq,
    Nat.add_mod_right]

theorem Numbers.highestWith (h : e.Numbers slots n) :
    SeqNum.highestWith e.tracker.highest e.numbering.upcoming = SeqNum.zero.plus (n + 1) := by
  rw [h.upcoming]
  cases hh : e.tracker.highest with
  | none => rfl
  | some s =>
      have hafter : (SeqNum.zero.plus (n + 1)).isAfter (SeqNum.zero.plus n) = true := by
        rw [SeqNum.isAfter_iff_plus]
        exact ⟨1, by decide, by decide, (SeqNum.plus_plus _ _ _).symm⟩
      rw [SeqNum.highestWith, h.highest s hh, SeqNum.latest, if_pos hafter]

theorem Numbers.taken (h : e.Numbers slots n) (hd : slots ∣ 0x100000000)
    (hv : e.tracker.isVacant e.numbering.upcoming = true) {payload : Bytes} {now : Instant}
    (hok : e.sendData payload now = (.ok p, l)) :
    p = .data (SeqNum.zero.plus (n + 1)) payload ∧ l.Numbers slots (n + 1) := by
  have hs := h.sound.sendData payload now
  rw [hok] at hs
  obtain ⟨rfl, rfl⟩ := eq_of_sendData hok
  refine ⟨by rw [h.upcoming], hs, h.table, ?_, ?_, ?_⟩
  · show e.numbering.upcoming.next = _
    rw [h.upcoming, SeqNum.next_plus]
  · intro s hm
    exact (Option.some.inj hm).symm.trans h.highestWith
  · intro u hm
    rcases List.mem_cons.mp hm with rfl | hm
    · have hpos : 0 < slots := Nat.pos_of_dvd_of_pos hd (by decide)
      exact ⟨n + 1, Nat.succ_pos n, Nat.le_refl _, Nat.lt_add_of_pos_right hpos, h.upcoming⟩
    · obtain ⟨k, hpos, hle, hlt, hseq⟩ := h.recent u hm
      exact ⟨k, hpos, Nat.le_succ_of_le hle, h.lt_of_isVacant hd hv hm hseq hlt, hseq⟩

theorem Numbers.sendData (h : e.Numbers slots n) (hd : slots ∣ 0x100000000) (payload : Bytes)
    (now : Instant) :
    e.sendData payload now = (.error e.windowFull, e) ∨
      ∃ l, e.sendData payload now = (.ok (.data (SeqNum.zero.plus (n + 1)) payload), l) ∧
        l.Numbers slots (n + 1) := by
  rcases sendData_cases e payload now with herr | ⟨hfull, hv⟩
  · exact .inl herr
  · have hok := sendData_of_isVacant hfull hv payload now
    obtain ⟨hp, hl⟩ := h.taken hd hv hok
    refine .inr ⟨_, ?_, hl⟩
    rw [hok, hp]

/-! ## What takes up nothing -/

theorem Numbers.handleAck (h : e.Numbers slots n) (p : Packet) (now : Instant) :
    (e.handleAck p now).2.Numbers slots n := by
  have htracker : (e.handleAck p now).2.tracker.slots = e.tracker.slots ∧
      (e.handleAck p now).2.tracker.highest = e.tracker.highest := by
    rcases handleAck_cases e p now with ⟨answer, heq, -⟩ | ⟨u, -, hf, heq⟩
    · rw [heq]
      exact ⟨rfl, rfl⟩
    · rw [heq]
      simp only [acknowledged, Tracker.acknowledge, hf, and_self]
  exact h.of_frame (h.sound.handleAck p now) htracker.1 (handleAck_frame e p now).1 htracker.2
    fun u hu => ⟨u, mem_of_mem_handleAck hu, rfl⟩

theorem Numbers.timedOut (h : e.Numbers slots n) (now : Instant) :
    (e.timedOut now).2.Numbers slots n := by
  obtain ⟨hn, -, -, hentries⟩ := timedOut_frame e now
  have htracker : (e.timedOut now).2.tracker.slots = e.tracker.slots ∧
      (e.timedOut now).2.tracker.highest = e.tracker.highest := by
    simp only [LockedEngine.timedOut]
    split
    · exact ⟨rfl, rfl⟩
    · exact ⟨rfl, rfl⟩
  refine h.of_frame (h.sound.timedOut now) htracker.1 hn htracker.2 ?_
  intro u hu
  rw [hentries] at hu
  obtain ⟨v, hv, rfl⟩ := List.mem_map.mp hu
  exact ⟨v, hv, (Tracker.packet_renewed v now _).symm⟩

theorem Numbers.receive (h : e.Numbers slots n) (p : Packet) :
    (e.receive p).2.Numbers slots n := by
  have hs := h.sound.receive p
  rw [receive_sending] at hs ⊢
  exact h.of_frame hs rfl rfl rfl fun u hu => ⟨u, hu, rfl⟩

theorem Numbers.onLoss (h : e.Numbers slots n) : e.onLoss.Numbers slots n :=
  h.of_frame h.sound.onLoss rfl rfl rfl fun u hu => ⟨u, hu, rfl⟩

theorem Numbers.call (h : e.Numbers slots n) {c : EngineCall} (hc : c.leavesNumbering = true)
    (hs : c.isSendData = false) {answer : EngineAnswer}
    (hcall : (Engine.locked e).call c = (answer, .locked l)) : l.Numbers slots n := by
  cases c with
  | nextNumber => cases hc
  | sendData payload now => cases hs
  | send p now =>
      have hk : ¬ p.isKind .data = true := by simpa [EngineCall.leavesNumbering] using hc
      have hsame : (e.send p now).2 = e := by rw [LockedEngine.send, if_pos hk]
      cases hcall
      show (e.send p now).2.Numbers slots n
      rw [hsame]
      exact h
  | handleAck p now =>
      cases hcall
      exact h.handleAck p now
  | receive p =>
      cases hcall
      exact h.receive p
  | timedOut now =>
      cases hcall
      exact h.timedOut now
  | onLoss =>
      cases hcall
      exact h.onLoss
  | isUnacked | retries | budget | stats =>
      cases hcall
      exact h

/-! ## Acknowledgements -/

/-- An acknowledgement is answered by its packet in flight, or else by the last number. -/
theorem Numbers.answer_handleAck (h : e.Numbers slots n) (hf : p.hasFlag .ack = true)
    (now : Instant) :
    (e.handleAck p now).1 = if e.isUnacked p.ack.prev = true then .ok true
      else unmatchedAck p.ack (SeqNum.zero.plus n) := by
  rw [LockedEngine.handleAck, if_neg (not_not_intro hf), isUnacked, Tracker.isUnacked,
    Tracker.acknowledge]
  cases hfind : e.tracker.find? p.ack.prev with
  | none => exact congrArg (unmatchedAck p.ack) h.highestIssued
  | some u => rfl

theorem Numbers.of_isUnacked (h : e.Numbers slots n) {s : SeqNum} (hs : e.isUnacked s = true) :
    ∃ k, 0 < k ∧ k ≤ n ∧ n < k + slots ∧ s = SeqNum.zero.plus k := by
  obtain ⟨u, hm, hseq⟩ := (Tracker.isUnacked_iff h.sound.tracker).mp hs
  exact hseq ▸ h.recent u hm

end Numbers

end LockedEngine

namespace Engine

/-- The packets that the engine numbers in a run, in their order. -/
def numbered (e : Engine) (calls : List EngineCall) : List Packet :=
  (e.answers calls).filterMap EngineAnswer.packet?

/-- How an acknowledgement is answered after `n` numbers. -/
structure Classifies (e : Engine) (n : Nat) (p : Packet) (now : Instant) : Prop where
  /-- Its packet is in flight. -/
  takes_iff : (e.handleAck p now).1 = .ok true ↔ e.isUnacked p.ack.prev = true
  /-- Its packet was never sent: it is ahead of the last number. -/
  future_iff : (e.handleAck p now).1 = .error (.futureAck p.ack (SeqNum.zero.plus n)) ↔
    ∃ k, 0 < k ∧ k < 0x80000000 ∧ p.ack.prev = SeqNum.zero.plus (n + k)
  ignores_iff : (e.handleAck p now).1 = .ok false ↔ ¬ e.isUnacked p.ack.prev = true ∧
    ¬ ∃ k, 0 < k ∧ k < 0x80000000 ∧ p.ack.prev = SeqNum.zero.plus (n + k)
  /-- As long as a packet is among the last half of the numbers, its acknowledgement may come
  any number of times. -/
  repeated : ∀ k, 0 < k → k ≤ n → n < k + 0x80000000 → p.ack.prev = SeqNum.zero.plus k →
    ∃ answer, (e.handleAck p now).1 = .ok answer

section Numbers

variable {e : Engine} {l : LockedEngine} {slots n : Nat} {p : Packet}

theorem numbered_cons (e : Engine) (c : EngineCall) (rest : List EngineCall) :
    e.numbered (c :: rest) = (e.call c).1.packet?.toList ++ (e.call c).2.numbered rest := by
  rw [numbered, answers, List.filterMap_cons]
  cases (e.call c).1.packet? with
  | none => rfl
  | some p => rfl

/-- One call hands out the next number or none, and never meets a packet in the slot. -/
theorem Follows.numbers_call (h : e.Follows l) (hl : l.Numbers slots n)
    (hd : slots ∣ 0x100000000) {c : EngineCall} (hc : c.leavesNumbering = true) :
    (∃ l', (e.call c).2.Follows l' ∧
        l'.Numbers slots (n + (e.call c).1.packet?.toList.length)) ∧
      (∀ p ∈ (e.call c).1.packet?, p.seq = SeqNum.zero.plus (n + 1)) ∧
      ∀ s, (e.call c).1 ≠ .numbered (.error (.slotCollision s)) := by
  cases hs : c.isSendData with
  | false =>
      obtain ⟨l', hcall, hf⟩ := h.call c
      have hquiet := call_ne_numbered hs e
      rw [EngineAnswer.packet?_eq_none hquiet]
      refine ⟨⟨l', hf, hl.call hc hs hcall⟩, ?_, fun s => hquiet _⟩
      intro p hp
      cases hp
  | true =>
      obtain ⟨payload, now, rfl⟩ := EngineCall.exists_of_isSendData hs
      obtain ⟨hanswer, hf⟩ := h.sendData payload now
      have hcall : (e.call (.sendData payload now)).1 =
          .numbered (l.sendData payload now).1 := congrArg EngineAnswer.numbered hanswer
      rw [hcall]
      rcases hl.sendData hd payload now with herr | ⟨l', hok, hl'⟩
      · rw [herr] at hf ⊢
        refine ⟨⟨l, hf, hl⟩, ?_, ?_⟩
        · intro p hp
          cases hp
        · intro s heq
          cases heq
      · rw [hok] at hf ⊢
        refine ⟨⟨l', hf, hl'⟩, ?_, ?_⟩
        · intro p hp
          cases hp
          rfl
        · intro s heq
          cases heq

theorem Follows.numbers_run (h : e.Follows l) (hl : l.Numbers slots n)
    (hd : slots ∣ 0x100000000) {calls : List EngineCall}
    (hc : ∀ c ∈ calls, c.leavesNumbering = true) :
    (∃ l', (e.after calls).Follows l' ∧ l'.Numbers slots (n + (e.numbered calls).length)) ∧
      (e.numbered calls).map (·.seq) =
        (List.range' (n + 1) (e.numbered calls).length).map SeqNum.zero.plus ∧
      ∀ s, .numbered (.error (.slotCollision s)) ∉ e.answers calls := by
  -- over the calls, with the count general: the rest of a run starts where its first call ends
  induction calls generalizing e l n with
  | nil => exact ⟨⟨l, h, hl⟩, rfl, fun _ => List.not_mem_nil⟩
  | cons c rest ih =>
      obtain ⟨⟨l', hf, hl'⟩, hseq, hno⟩ :=
        h.numbers_call hl hd (hc c List.mem_cons_self)
      obtain ⟨hlast, hnums, hrest⟩ := ih hf hl' fun c hm => hc c (List.mem_cons_of_mem _ hm)
      have hhead : (e.call c).1.packet?.toList.map (·.seq) =
          (List.range' (n + 1) (e.call c).1.packet?.toList.length).map SeqNum.zero.plus := by
        cases hp : (e.call c).1.packet? with
        | none => rfl
        | some p => exact congrArg (fun s => [s]) (hseq p hp)
      rw [numbered_cons, List.length_append, ← Nat.add_assoc]
      refine ⟨hlast, ?_, ?_⟩
      · rw [List.map_append, hhead, hnums, ← List.range'_append_1, List.map_append,
          Nat.add_right_comm]
      · intro s hm
        rcases List.mem_cons.mp hm with heq | hm
        · exact hno s heq.symm
        · exact hrest s hm

theorem Follows.classifies (h : e.Follows l) (hl : l.Numbers slots n)
    (hs : slots ≤ 0x80000000) (hp : p.hasFlag .ack = true) (now : Instant) :
    e.Classifies n p now := by
  have hahead : p.ack.prev.isAfter (SeqNum.zero.plus n) = true ↔
      ∃ k, 0 < k ∧ k < 0x80000000 ∧ p.ack.prev = SeqNum.zero.plus (n + k) := by
    simp only [SeqNum.isAfter_iff_plus, SeqNum.plus_plus]
  have hbehind : e.isUnacked p.ack.prev = true →
      ¬ p.ack.prev.isAfter (SeqNum.zero.plus n) = true := by
    intro hu
    rw [h.isUnacked] at hu
    obtain ⟨k, -, hle, hlt, hseq⟩ := hl.of_isUnacked hu
    rw [hseq, SeqNum.not_isAfter_plus hle (by omega)]
    exact Bool.false_ne_true
  have hanswer : (e.handleAck p now).1 = if e.isUnacked p.ack.prev = true then .ok true
      else unmatchedAck p.ack (SeqNum.zero.plus n) := by
    rw [(h.handleAck p now).1, hl.answer_handleAck hp, h.isUnacked]
  rw [unmatchedAck] at hanswer
  refine ⟨?_, ?_, ?_, ?_⟩
  · rw [hanswer]
    grind
  · rw [hanswer, ← hahead]
    grind
  · rw [hanswer, ← hahead]
    grind
  · intro k _ hle hlt hseq
    have hnot : ¬ p.ack.prev.isAfter (SeqNum.zero.plus n) = true := by
      rw [hseq, SeqNum.not_isAfter_plus hle hlt]
      exact Bool.false_ne_true
    rw [hanswer, if_neg hnot]
    split
    · exact ⟨true, rfl⟩
    · exact ⟨false, rfl⟩

end Numbers

/-! ## Main result -/

/-- An engine of either kind that numbers all DATA itself, with a table of at most half as many
slots as there are numbers.  However long the run, the packets it numbers have the counts from one
on, the slot of the next number never collides, what is in flight is among the last numbers, as many
as the table has slots, and an acknowledgement is answered by where its packet stands. -/
theorem numbered_in_order {kind : EngineKind} {config : Reliability} {e : Engine}
    (hnew : new kind config = .ok e) (hsize : config.tableSize ≤ 0x80000000)
    {calls : List EngineCall} (hcalls : ∀ c ∈ calls, c.leavesNumbering = true) :
    let n := (e.numbered calls).length
    (∀ i p, (e.numbered calls)[i]? = some p → p.seq.word.toNat = (i + 1) % 0x100000000) ∧
      (∀ s, .numbered (.error (.slotCollision s)) ∉ e.answers calls) ∧
      (∀ s, (e.after calls).isUnacked s = true →
        ∃ k, 0 < k ∧ k ≤ n ∧ n < k + config.tableSize ∧ s = SeqNum.zero.plus k) ∧
      ∀ p now, p.hasFlag .ack = true → (e.after calls).Classifies n p now := by
  obtain ⟨hv, hf⟩ := follows_start hnew
  have hd : config.tableSize ∣ 0x100000000 :=
    dvd_of_isPowerOfTwo hv.isPowerOfTwo_tableSize (by decide) (Nat.le_trans hsize (by decide))
  obtain ⟨⟨l, hl, hn⟩, hnums, hno⟩ :=
    hf.numbers_run (LockedEngine.numbers_start hv) hd hcalls
  rw [Nat.zero_add] at hn hnums
  refine ⟨?_, hno, ?_, ?_⟩
  · intro i p hp
    have hi := (List.getElem?_eq_some_iff.mp hp).1
    have hseq := congrArg (·[i]?) hnums
    simp only [List.getElem?_map, hp, List.getElem?_range' hi, Option.map_some,
      Option.some.injEq] at hseq
    rw [hseq, SeqNum.toNat_zero_plus]
    omega
  · intro s hs
    rw [hl.isUnacked] at hs
    exact hn.of_isUnacked hs
  · intro p now hp
    exact hl.classifies hn hsize hp now

/-- Settings with room for two packets in flight on eight slots. -/
def twoOnEight : Reliability where
  windowSize := 2
  initialWindow := 2
  tableSize := 8
  receiveCapacity := 1

/-- The first packet stays in flight while seven more come and go.  The ninth has its slot: it is
refused once, and sent when the first is acknowledged. -/
def heldRun : List EngineCall :=
  .sendData [0] 0 ::
    (List.range' 2 7).flatMap (fun k =>
      [.sendData [0] 0, .handleAck (.acknowledge (SeqNum.zero.plus (k + 1))) 0]) ++
    [.sendData [0] 0, .handleAck (.acknowledge (SeqNum.zero.plus 2)) 0, .sendData [0] 0]

theorem numbered_past_held :
    ∃ e, new .lockFree twoOnEight = .ok e ∧ (∀ c ∈ heldRun, c.leavesNumbering = true) ∧
      (e.numbered heldRun).length = 9 ∧
      ∀ p now, p.hasFlag .ack = true → (e.after heldRun).Classifies 9 p now := by
  obtain ⟨e, hnew⟩ : ∃ e, new .lockFree twoOnEight = .ok e := ⟨_, rfl⟩
  have hcalls : ∀ c ∈ heldRun, c.leavesNumbering = true := by decide
  have hlength : (e.numbered heldRun).length = 9 := by
    cases hnew
    decide +kernel
  obtain ⟨-, -, -, hclass⟩ := numbered_in_order hnew (by decide) hcalls
  rw [hlength] at hclass
  exact ⟨e, hnew, hcalls, hlength, hclass⟩

end Engine

end ReliableDatagram
