/-
One direction of a connection, as its two engines hold it.

A sender that has taken up the payloads `sent` numbers them one after the
other and tracks only packets of that stream.  A receiver that has handed on
`got` has handed on the front of the stream and expects what follows.  Each
operation of either engine keeps both; what the sender takes up makes the
stream longer, and what the receiver releases is the next piece of it.

Between them the two cover the stream: each payload is tracked, held back or
handed on.

Positions in the stream are natural numbers here and sequence numbers in packets.
A stream of fewer than 2³¹ payloads has no two positions of one number, and the
signed distance of two numbers is that of their positions; so a lemma asks for
that bound where numbers are compared, which is when a packet is received and when
one is acknowledged.

`Sends` and `Receives` speak of one engine each.  That is why they survive
whatever happens to the other engine, and why the network in between need not be
mentioned: a lemma about receiving asks of the packet only that it carries what
the stream has at its position.  `Covers` speaks of both, and it is the part that
a fresh connection destroys, since what the old one tracked is then tracked by
nobody.

An engine that has just been made sends and receives the empty stream.  A reply to
a SYN at the start of the stream changes nothing, as the receiver stands there or
has gone further already.
-/
import ReliableDatagram.Proofs.Engine.Locked
import ReliableDatagram.Proofs.Receiving.Ordering
import ReliableDatagram.Proofs.Sending.Offers

namespace ReliableDatagram.LockedEngine

/-- The sender of a stream. -/
structure Sends (e : LockedEngine) (sent : List Bytes) : Prop where
  sound : e.Sound
  upcoming : e.numbering.upcoming = .nth sent.length
  tracked : ∀ u ∈ e.tracker.entries, ∃ k, u.packet.Carries sent k

/-- The receiver of a stream, with what it has handed on. -/
structure Receives (e : LockedEngine) (sent got : List Bytes) : Prop where
  expects : e.ordering.Expects sent got.length
  front : got = sent.take got.length

/-- Whether number `k` of a stream is in flight. -/
def Tracks (e : LockedEngine) (k : Nat) : Prop := ∃ u ∈ e.tracker.entries, u.packet.seq = .nth k

/-- Whether the receiver has number `k` of a stream. -/
def Took (e : LockedEngine) (got : List Bytes) (k : Nat) : Prop :=
  k < got.length ∨ e.ordering.Has k

/-- Nothing that was sent is lost. -/
def Covers (a b : LockedEngine) (sent got : List Bytes) : Prop :=
  ∀ k < sent.length, a.Tracks k ∨ b.Took got k

/-! ## The start -/

theorem sends_start {config : Reliability} (h : config.Valid) : (start config).Sends [] :=
  ⟨sound_start h, rfl, fun _ hu => nomatch hu⟩

theorem receives_start {config : Reliability} (h : config.initialReceive = .first)
    {sent : List Bytes} : (start config).Receives sent [] := by
  have := (OrderingBuffer.expects_new config.receiveCapacity).append sent
  refine ⟨?_, rfl⟩
  rw [start, Reliability.firstOrdering, h]
  exact this

section Stream

variable {e l : LockedEngine} {sent got : List Bytes}

/-! ## Taking up a payload -/

theorem eq_of_sendData {payload : Bytes} {now : Instant} {p : Packet}
    (h : e.sendData payload now = (.ok p, l)) :
    p = .data e.numbering.upcoming payload ∧ l = { e with
      numbering := ⟨e.numbering.upcoming.next⟩
      tracker := { e.tracker with
        entries := .sent p now :: e.tracker.entries
        highest := some (.highestWith e.tracker.highest p.seq) }
      tally := e.tally.countSent } := by
  rcases sendData_cases e payload now with herr | ⟨hfull, hv⟩
  · rw [herr] at h
    cases h
  · rw [sendData_of_isVacant hfull hv] at h
    cases h
    refine ⟨rfl, ?_⟩
    rw [Tracker.record_of_isVacant (p := .data e.numbering.upcoming payload) rfl hv]

theorem carries_of_sendData (hs : e.Sends sent) {payload : Bytes} {now : Instant} {p : Packet}
    (hlen : payload.length ≤ maxPayload) (h : e.sendData payload now = (.ok p, l)) :
    p.Carries (sent ++ [payload]) sent.length := by
  obtain ⟨rfl, -⟩ := eq_of_sendData h
  have hp : (Packet.data e.numbering.upcoming payload).payload = payload :=
    List.take_of_length_le hlen
  refine ⟨?_, ?_⟩
  · rw [hp, hs.upcoming]
  · rw [List.getElem?_append_right (Nat.le_refl _), Nat.sub_self, hp]
    rfl

theorem Sends.sendData (hs : e.Sends sent) {payload : Bytes} {now : Instant} {p : Packet}
    (hlen : payload.length ≤ maxPayload) (h : e.sendData payload now = (.ok p, l)) :
    l.Sends (sent ++ [payload]) := by
  have hc := carries_of_sendData hs hlen h
  have hsound := hs.sound.sendData payload now
  rw [h] at hsound
  obtain ⟨-, rfl⟩ := eq_of_sendData h
  refine ⟨hsound, ?_, ?_⟩
  · show e.numbering.upcoming.next = _
    rw [hs.upcoming, SeqNum.next_nth, List.length_append]
    rfl
  · intro u hu
    rcases List.mem_cons.mp hu with rfl | hu
    · exact ⟨_, hc⟩
    · obtain ⟨k, hk⟩ := hs.tracked u hu
      exact ⟨k, hk.append _⟩

theorem Covers.sendData {b : LockedEngine} (hc : e.Covers b sent got) (hs : e.Sends sent)
    {payload : Bytes} {now : Instant} {p : Packet} (hlen : payload.length ≤ maxPayload)
    (h : e.sendData payload now = (.ok p, l)) : l.Covers b (sent ++ [payload]) got := by
  have hp := carries_of_sendData hs hlen h
  obtain ⟨-, rfl⟩ := eq_of_sendData h
  intro k hk
  rw [List.length_append, List.length_singleton] at hk
  rcases Nat.lt_succ_iff_lt_or_eq.mp hk with hlt | rfl
  · rcases hc k hlt with ⟨u, hu, hseq⟩ | htook
    · exact .inl ⟨u, List.mem_cons_of_mem _ hu, hseq⟩
    · exact .inr htook
  · exact .inl ⟨_, List.mem_cons_self, hp.seq⟩

theorem ordering_of_sendData {payload : Bytes} {now : Instant} {p : Packet}
    (h : e.sendData payload now = (.ok p, l)) : l.ordering = e.ordering := by
  obtain ⟨-, rfl⟩ := eq_of_sendData h
  rfl

/-! ## Acknowledgements -/

theorem handleAck_frame (e : LockedEngine) (p : Packet) (now : Instant) :
    (e.handleAck p now).2.numbering = e.numbering ∧
      (e.handleAck p now).2.ordering = e.ordering := by
  rcases handleAck_cases e p now with ⟨answer, heq, -⟩ | ⟨u, -, -, heq⟩
  · rw [heq]
    exact ⟨rfl, rfl⟩
  · rw [heq]
    exact ⟨rfl, rfl⟩

theorem mem_handleAck (hs : e.Sound) {p : Packet} (ha : p.hasFlag .ack = true) (now : Instant)
    {u : Unacked} : u ∈ (e.handleAck p now).2.tracker.entries ↔
      u ∈ e.tracker.entries ∧ u.packet.seq ≠ p.ack.prev := by
  rcases handleAck_cases e p now with ⟨answer, heq, -, hnone⟩ | ⟨v, -, -, heq⟩
  · rw [heq]
    have hf := (Tracker.find?_eq_none_iff hs.tracker).mp (hnone ha)
    exact ⟨fun hu => ⟨hu, hf u hu⟩, And.left⟩
  · rw [heq]
    exact Tracker.mem_acknowledge hs.tracker

theorem mem_of_mem_handleAck {p : Packet} {now : Instant} {u : Unacked}
    (hu : u ∈ (e.handleAck p now).2.tracker.entries) : u ∈ e.tracker.entries := by
  rcases handleAck_cases e p now with ⟨answer, heq, -⟩ | ⟨v, -, hf, heq⟩
  · rwa [heq] at hu
  · rw [heq] at hu
    simp only [acknowledged, Tracker.acknowledge, hf] at hu
    exact List.mem_of_mem_eraseP hu

theorem Sends.handleAck (hs : e.Sends sent) (p : Packet) (now : Instant) :
    (e.handleAck p now).2.Sends sent :=
  ⟨hs.sound.handleAck p now, by rw [(handleAck_frame e p now).1, hs.upcoming],
    fun u hu => hs.tracked u (mem_of_mem_handleAck hu)⟩

/-- What an honest acknowledgement takes off the tracker, the receiver has. -/
theorem Covers.handleAck {b : LockedEngine} (hc : e.Covers b sent got) (hs : e.Sends sent)
    (hn : sent.length < 0x80000000) {p : Packet} {j : Nat} (ha : p.ack = .nth (j + 1))
    (hj : j < sent.length) (hb : b.Took got j) (now : Instant) :
    (e.handleAck p now).2.Covers b sent got := by
  intro k hk
  rcases hc k hk with ⟨u, hu, hseq⟩ | htook
  · by_cases hkj : k = j
    · exact .inr (hkj ▸ hb)
    · refine .inl ⟨u, ?_, hseq⟩
      by_cases hf : p.hasFlag .ack = true
      · refine (mem_handleAck hs.sound hf now).mpr ⟨hu, ?_⟩
        rw [hseq, ha, ← SeqNum.next_nth, SeqNum.next_prev]
        exact fun heq => hkj ((SeqNum.nth_inj (by omega) (by omega)).mp heq)
      · rw [LockedEngine.handleAck, if_pos hf]
        exact hu
  · exact .inr htook

/-! ## Scanning -/

theorem timedOut_frame (e : LockedEngine) (now : Instant) :
    (e.timedOut now).2.numbering = e.numbering ∧ (e.timedOut now).2.ordering = e.ordering ∧
      (e.timedOut now).2.roundTrip = e.roundTrip ∧ (e.timedOut now).2.tracker.entries =
        e.tracker.entries.map (·.renewed now e.roundTrip.timeout) := by
  simp only [LockedEngine.timedOut]
  split
  · exact ⟨rfl, rfl, rfl, rfl⟩
  · exact ⟨rfl, rfl, rfl, rfl⟩

/-- A scan sends the packets that are overdue, and no others. -/
theorem mem_timedOut (e : LockedEngine) (now : Instant) (p : Packet) :
    p ∈ (e.timedOut now).1 ↔
      ∃ u ∈ e.tracker.entries, u.isOverdue now e.roundTrip.timeout = true ∧ u.packet = p := by
  have hoffers : p ∈ (e.timedOut now).1 ↔
      ∃ o ∈ (e.tracker.scan now e.roundTrip.timeout).1, o.packet = p := by
    simp only [LockedEngine.timedOut]
    split
    · rename_i hempty
      rw [List.isEmpty_iff.mp hempty]
      simp
    · exact List.mem_map
  rw [hoffers]
  simp only [Tracker.scan, (Offer.inOrder_perm _ _).mem_iff, List.mem_filterMap]
  constructor
  · rintro ⟨o, ⟨u, hu, ho⟩, rfl⟩
    unfold Unacked.offer? at ho
    split at ho
    · rename_i hover
      cases ho
      exact ⟨u, hu, hover, rfl⟩
    · cases ho
  · rintro ⟨u, hu, hover, rfl⟩
    exact ⟨⟨u.packet, u.retries + 1⟩, ⟨u, hu, by rw [Unacked.offer?, if_pos hover]⟩, rfl⟩

theorem Sends.timedOut (hs : e.Sends sent) (now : Instant) : (e.timedOut now).2.Sends sent := by
  obtain ⟨hnum, -, -, hentries⟩ := timedOut_frame e now
  refine ⟨hs.sound.timedOut now, by rw [hnum, hs.upcoming], fun u hu => ?_⟩
  rw [hentries] at hu
  obtain ⟨v, hv, rfl⟩ := List.mem_map.mp hu
  rw [Tracker.packet_renewed]
  exact hs.tracked v hv

theorem Sends.carries_of_timedOut (hs : e.Sends sent) {now : Instant} {p : Packet}
    (hp : p ∈ (e.timedOut now).1) : ∃ k, p.Carries sent k := by
  obtain ⟨u, hu, -, rfl⟩ := (mem_timedOut e now p).mp hp
  exact hs.tracked u hu

theorem Covers.timedOut {b : LockedEngine} (hc : e.Covers b sent got) (now : Instant) :
    (e.timedOut now).2.Covers b sent got := by
  intro k hk
  rcases hc k hk with ⟨u, hu, hseq⟩ | htook
  · refine .inl ⟨u.renewed now e.roundTrip.timeout, ?_, by rw [Tracker.packet_renewed, hseq]⟩
    rw [(timedOut_frame e now).2.2.2]
    exact List.mem_map_of_mem hu
  · exact .inr htook

/-! ## Receiving -/

theorem Sends.receive (hs : e.Sends sent) (p : Packet) : (e.receive p).2.Sends sent := by
  have hsound := hs.sound.receive p
  rw [receive_sending] at hsound ⊢
  exact ⟨hsound, hs.upcoming, hs.tracked⟩

theorem Covers.of_receive {b : LockedEngine} (hc : e.Covers b sent got) (p : Packet) :
    (e.receive p).2.Covers b sent got := by
  rw [receive_sending]
  exact hc

theorem Receives.append (hr : e.Receives sent got) (more : List Bytes) :
    e.Receives (sent ++ more) got := by
  refine ⟨hr.expects.append more, ?_⟩
  rw [List.take_append_of_le_length hr.expects.le]
  exact hr.front

theorem Receives.of_ordering (hr : e.Receives sent got) (h : l.ordering = e.ordering) :
    l.Receives sent got :=
  ⟨by rw [h]; exact hr.expects, hr.front⟩

/-- What a receiver does with a packet of the stream.  It refuses the packet, without a change,
only if the packet is ahead of what is next. -/
theorem Receives.data (hr : e.Receives sent got) (hn : sent.length < 0x80000000) {k : Nat}
    {p : Packet} (hc : p.Carries sent k) :
    (e.receive p = (.error (.bufferOverflow e.ordering.capacity), e) ∧ got.length < k ∧
        ¬ e.ordering.Has k) ∨
      ∃ released l, e.receive p = (.ok released, l) ∧
        l.Receives sent (got ++ released.map (·.payload)) ∧
        ∀ i < sent.length, i = k ∨ e.Took got i →
          l.Took (got ++ released.map (·.payload)) i := by
  have hdata : e.receive p = e.receiveData p := by rw [LockedEngine.receive, hc.kind]
  rw [hdata, receiveData]
  rcases hr.expects.receive hn hc with ⟨heq, hk, hh⟩ | ⟨heq, htook⟩ |
    ⟨released, b', m, heq, hexp, hrel, hkeep⟩
  · rw [heq]
    exact .inl ⟨rfl, hk, hh⟩
  · rw [heq]
    refine .inr ⟨[], e, rfl, ?_, ?_⟩
    · rwa [List.map_nil, List.append_nil]
    -- turned away as a duplicate, which says that it was taken before
    · rintro i - (rfl | hi)
      · rwa [List.map_nil, List.append_nil]
      · rwa [List.map_nil, List.append_nil]
  · rw [heq]
    have hle := hexp.le
    have hlen : (got ++ released.map (·.payload)).length = got.length + m := by
      rw [List.length_append, hrel, List.length_take, List.length_drop]
      omega
    refine .inr ⟨released, _, rfl, ⟨?_, ?_⟩, ?_⟩
    · rw [hlen]
      exact hexp
    · rw [hlen, hrel, List.take_add, ← hr.front]
    · intro i hi hor
      rw [Took, hlen]
      rcases hor with rfl | htook | hhas
      · exact hkeep _ hi (.inl rfl)
      · exact .inl (by omega)
      · exact hkeep _ hi (.inr hhas)

/-- A reply to a SYN names the position that a connection has from the start. -/
theorem Receives.synAck (hr : e.Receives sent got) (hn : sent.length < 0x80000000) {p : Packet}
    (hk : p.kind = .syn) (ha : p.hasFlag .ack = true) (hz : p.seq = .zero) :
    e.receive p = (.ok [], e) := by
  have hadv := hr.expects.advance_first hn
  rw [LockedEngine.receive, hk]
  simp only [receiveSyn, ha, if_true, hz]
  rw [show SeqNum.zero.next = SeqNum.first from rfl, hadv]

theorem receive_start_syn {config : Reliability} (h : config.initialReceive = .first) {p : Packet}
    (hk : p.kind = .syn) (ha : p.hasFlag .ack = false) (hz : p.seq = .zero) :
    (start config).receive p = (.ok [], start config) := by
  rw [LockedEngine.receive, hk]
  simp only [receiveSyn, ha, Bool.false_eq_true, if_false, hz]
  rw [show SeqNum.zero.next = SeqNum.first from rfl, start, Reliability.firstOrdering, h]
  rfl

end Stream

end ReliableDatagram.LockedEngine
