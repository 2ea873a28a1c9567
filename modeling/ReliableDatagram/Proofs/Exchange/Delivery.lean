/-
What an exchange delivers.

Each direction has an invariant of its own: a sender and a receiver of one
stream, and no DATA of that direction on the wire but packets of the stream.  So
what one side hands on is the front of what the other side took up.  Every step
of the data phase keeps it.  A restart keeps it as long as the sender has taken
up nothing and the receiver has handed on nothing; the two directions do not
depend on each other.

An exchange in which both directions are in order is complete if nothing is
lost: each payload is tracked by its sender or has reached the receiver, and
each acknowledgement on the wire names a packet that its sender has.  Steps of
the data phase keep that, since a packet is acknowledged only after it was
released or held.

The wire needs no order.  A step takes a packet at some index, and all that the
invariants say of the wire is said of each of its packets, so a packet that was
dropped or doubled changes nothing about them.

Order and completeness are two invariants because restarts keep the first one and
destroy the second.  An engine that is replaced forgets what it had in flight,
which may be what the other direction still waits for; what has been handed on in
its own direction stays the front of the stream all the same.

What a SYN does to its receiver depends on the number that it carries and on its
ACK flag.  All SYNs that an end point sends have the same number, and `Usual` says
so of every packet on the wire, as well as that engines have DATA in flight and
nothing else.
-/
import ReliableDatagram.Proofs.Exchange.Basic

namespace ReliableDatagram

namespace Exchange

/-- One direction is in order. -/
structure InOrder (x : Exchange) (s : Side) : Prop where
  sends : (x.engine s).Sends (x.sent s)
  numbers : x.numbers s = (List.range (x.sent s).length).map .nth
  receives : (x.engine s.other).Receives (x.sent s) (x.got s.other)
  genuine : ∀ p, (s, p) ∈ x.wire → p.kind = .data → ∃ k, p.Carries (x.sent s) k

/-- A packet that does not end a connection, and that leads to the first number if it is a SYN. -/
def UsualPacket (p : Packet) : Prop :=
  p.kind = .data ∨ p.kind = .ack ∨ (p.kind = .syn ∧ p.seq = .zero)

/-- Engines track DATA only, and nothing ends a connection. -/
structure Usual (x : Exchange) : Prop where
  tracked : ∀ s, ∀ u ∈ (x.engine s).tracker.entries, u.packet.kind = .data
  wire : ∀ m ∈ x.wire, UsualPacket m.2

/-- Nothing is lost in either direction. -/
structure Complete (x : Exchange) : Prop where
  covers : ∀ s, (x.engine s).Covers (x.engine s.other) (x.sent s) (x.got s.other)
  acks : ∀ s p, (s, p) ∈ x.wire → p.kind = .ack → ∃ k < (x.sent s.other).length,
    p.ack = .nth (k + 1) ∧ (x.engine s).Took (x.got s) k
  quiet : ∀ m ∈ x.wire, m.2.kind ≠ .syn

/-- Fewer payloads than half the space of numbers were taken up on either side. -/
def Bounded (x : Exchange) : Prop := ∀ s, (x.sent s).length < 0x80000000

theorem UsualPacket.seq_of_syn {p : Packet} (h : UsualPacket p) (hk : p.kind = .syn) :
    p.seq = .zero := by
  rcases h with hd | ha | ⟨-, hz⟩
  · rw [hk] at hd
    cases hd
  · rw [hk] at ha
    cases ha
  · exact hz

/-! ## The start -/

section Start

variable {config : Side → Reliability}

theorem inOrder_start {s : Side} (hv : (config s).Valid)
    (hf : (config s.other).initialReceive = .first) : (start config).InOrder s :=
  ⟨LockedEngine.sends_start hv, rfl, LockedEngine.receives_start hf, fun _ hm => nomatch hm⟩

theorem usual_start : (start config).Usual :=
  ⟨fun _ _ hu => (nomatch hu), fun _ hm => nomatch hm⟩

theorem complete_start : (start config).Complete :=
  ⟨fun _ k hk => absurd hk (Nat.not_lt_zero k), (fun _ _ hm => nomatch hm),
    (fun _ hm => nomatch hm)⟩

end Start

section Steps

variable {able : Side → PacketKind → Prop} {x x' : Exchange} {s : Side} {l : LockedEngine}
  {packets released : List Packet}

/-! ## Packets on the wire -/

theorem Usual.post (h : x.Usual) (ht : ∀ u ∈ l.tracker.entries, u.packet.kind = .data)
    (hp : ∀ p ∈ packets, UsualPacket p) : (x.post s l packets).Usual := by
  refine ⟨Side.forall_of s ?_ ?_, ?_⟩
  · simpa using ht
  · simpa using h.tracked s.other
  · intro m hm
    rcases (mem_wire_post _ _ _ _).mp hm with hm | ⟨-, hm⟩
    · exact h.wire m hm
    · exact hp m.2 hm

theorem Usual.handed (h : x.Usual) : (x.handed s released).Usual := ⟨h.tracked, h.wire⟩

theorem Usual.taken (h : x.Usual) {p : Packet} {payload : Bytes} :
    (x.taken s p payload).Usual :=
  ⟨h.tracked, h.wire⟩

theorem Usual.without (h : x.Usual) (i : Nat) : (x.without i).Usual :=
  ⟨h.tracked, fun m hm => h.wire m (List.mem_of_mem_eraseIdx hm)⟩

theorem mem_of_mem_double {i : Nat} {m : Side × Packet}
    (hm : m ∈ x.wire ++ x.wire[i]?.toList) : m ∈ x.wire := by
  rcases List.mem_append.mp hm with hm | hm
  · exact hm
  · exact List.mem_of_getElem? (Option.mem_toList.mp hm)

theorem Usual.double (h : x.Usual) (i : Nat) :
    Usual { x with wire := x.wire ++ x.wire[i]?.toList } :=
  ⟨h.tracked, fun m hm => h.wire m (mem_of_mem_double hm)⟩

theorem Usual.step (h : x.Usual) (hx : Step able x x') : x'.Usual := by
  cases hx with
  | @send t payload p l hlen hsend =>
      obtain ⟨hp, hl⟩ := LockedEngine.eq_of_sendData hsend
      have hkind : p.kind = .data := by rw [hp]; rfl
      refine Usual.taken (h.post ?_ ?_)
      · intro u hu
        rw [hl] at hu
        rcases List.mem_cons.mp hu with rfl | hu
        · exact hkind
        · exact h.tracked t u hu
      · intro q hq
        rw [List.mem_singleton.mp hq]
        exact .inl hkind
  | scan t =>
      refine h.post ?_ ?_
      · intro u hu
        rw [(LockedEngine.timedOut_frame (x.engine t) x.now).2.2.2] at hu
        obtain ⟨v, hv, rfl⟩ := List.mem_map.mp hu
        rw [Tracker.packet_renewed]
        exact h.tracked t v hv
      · intro p hp
        obtain ⟨u, hu, -, rfl⟩ := (LockedEngine.mem_timedOut (x.engine t) x.now p).mp hp
        exact .inl (h.tracked t u hu)
  | elapse span => exact ⟨h.tracked, h.wire⟩
  | lose i => exact h.without i
  | double i => exact h.double i
  | @data i t p released l hi hk _ hrec =>
      refine ((h.without i).post ?_ ?_).handed
      · intro u hu
        rw [LockedEngine.tracker_of_receive hrec] at hu
        exact h.tracked t.other u hu
      · intro q hq
        rw [List.mem_singleton.mp hq]
        exact .inr (.inl rfl)
  | @refuse i t p error l hi hk _ hrec =>
      refine (h.without i).post ?_ fun q hq => nomatch hq
      intro u hu
      rw [LockedEngine.tracker_of_receive hrec] at hu
      exact h.tracked t.other u hu
  | @ack i t p hi hk _ =>
      refine (h.without i).post ?_ fun q hq => nomatch hq
      intro u hu
      exact h.tracked t.other u (LockedEngine.mem_of_mem_handleAck hu)

theorem Usual.setup {config : Side → Reliability} {restarted : Option Side} (h : x.Usual)
    (hx : Setup config restarted x x') : x'.Usual := by
  cases hx with
  | connect t =>
      refine h.post (fun u hu => nomatch hu) ?_
      intro q hq
      rw [List.mem_singleton.mp hq]
      exact .inr (.inr ⟨rfl, rfl⟩)
  | @syn x i t p released l hi hk ha hrec =>
      refine ((h.without i).post ?_ ?_).handed
      · intro u hu
        rw [LockedEngine.tracker_of_receive hrec] at hu
        cases hu
      · intro q hq
        rw [List.mem_singleton.mp hq]
        exact .inr (.inr ⟨rfl, rfl⟩)
  | @synAck x i t p released l hi hk ha hrec =>
      refine ((h.without i).post ?_ ?_).handed
      · intro u hu
        rw [LockedEngine.tracker_of_receive hrec] at hu
        exact h.tracked t.other u hu
      · intro q hq
        cases hq

/-! ## Order -/

theorem InOrder.post_sender (h : x.InOrder s) (hs : l.Sends (x.sent s))
    (hp : ∀ p ∈ packets, p.kind = .data → ∃ k, p.Carries (x.sent s) k) :
    ((x.post s l packets).handed s released).InOrder s := by
  refine ⟨?_, h.numbers, ?_, ?_⟩
  · simpa using hs
  · simpa using h.receives
  · intro p hm hk
    rw [wire_handed, mem_wire_post] at hm
    rcases hm with hm | ⟨-, hm⟩
    · exact h.genuine p hm hk
    · exact hp p hm hk

theorem InOrder.post_receiver (h : x.InOrder s)
    (hr : l.Receives (x.sent s) (x.got s.other ++ released.map (·.payload))) :
    ((x.post s.other l packets).handed s.other released).InOrder s := by
  refine ⟨?_, h.numbers, ?_, ?_⟩
  · simpa using h.sends
  · simpa using hr
  · intro p hm hk
    rw [wire_handed, mem_wire_post] at hm
    rcases hm with hm | ⟨hne, -⟩
    · exact h.genuine p hm hk
    · exact absurd hne s.ne_other

theorem InOrder.post_taken (h : x.InOrder s) {p : Packet} {payload : Bytes}
    (hs : l.Sends (x.sent s ++ [payload]))
    (hc : p.Carries (x.sent s ++ [payload]) (x.sent s).length) :
    ((x.post s l [p]).taken s p payload).InOrder s := by
  refine ⟨?_, ?_, ?_, ?_⟩
  · simpa using hs
  · rw [numbers_taken_self, numbers_post, sent_taken_self, sent_post, h.numbers,
      List.length_append, List.length_singleton, List.range_succ, List.map_append, hc.seq]
    rfl
  · have := h.receives.append [payload]
    simpa using this
  · intro q hm hk
    rw [wire_taken, mem_wire_post] at hm
    rw [sent_taken_self, sent_post]
    rcases hm with hm | ⟨-, hm⟩
    · obtain ⟨k, hk⟩ := h.genuine q hm hk
      exact ⟨k, hk.append _⟩
    · obtain rfl : q = p := List.mem_singleton.mp hm
      exact ⟨_, hc⟩

theorem InOrder.of_wire (h : x.InOrder s) {wire : List (Side × Packet)}
    (hw : ∀ m ∈ wire, m ∈ x.wire) : InOrder { x with wire } s :=
  ⟨h.sends, h.numbers, h.receives, fun p hm => h.genuine p (hw _ hm)⟩

theorem InOrder.without (h : x.InOrder s) (i : Nat) : (x.without i).InOrder s :=
  h.of_wire fun _ hm => List.mem_of_mem_eraseIdx hm

theorem InOrder.step (h : x.InOrder s) (hn : (x.sent s).length < 0x80000000) (hx : Step able x x') :
    x'.InOrder s := by
  cases hx with
  | @send t payload p l hlen hsend =>
      rcases t.eq_or_eq_other s with rfl | rfl
      -- its own payload makes the stream longer; one of the receiver belongs to the other direction
      · exact h.post_taken (h.sends.sendData hlen hsend)
          (LockedEngine.carries_of_sendData h.sends hlen hsend)
      · have hr := h.receives.of_ordering (LockedEngine.ordering_of_sendData hsend)
        have hp : ((x.post s.other l [p]).handed s.other []).InOrder s :=
          h.post_receiver (by simpa using hr)
        rw [handed_nil] at hp
        refine ⟨?_, ?_, ?_, ?_⟩
        · simpa using hp.sends
        · simpa using hp.numbers
        · simpa using hp.receives
        · simpa using hp.genuine
  | scan t =>
      rw [← handed_nil (x.post t _ _) t]
      rcases t.eq_or_eq_other s with rfl | rfl
      · exact h.post_sender (h.sends.timedOut x.now) fun p hp _ => h.sends.carries_of_timedOut hp
      · refine h.post_receiver ?_
        simpa using h.receives.of_ordering
          (LockedEngine.timedOut_frame (x.engine s.other) x.now).2.1
  | elapse span => exact ⟨h.sends, h.numbers, h.receives, h.genuine⟩
  | lose i => exact h.without i
  | double i => exact h.of_wire fun m hm => mem_of_mem_double hm
  | @data i t p released l hi hk _ hrec =>
      rcases t.eq_or_eq_other s with rfl | rfl
      · obtain ⟨k, hc⟩ := h.genuine p (List.mem_of_getElem? hi) hk
        rcases h.receives.data hn hc with ⟨herr, -⟩ | ⟨released', l', hok, hrel, -⟩
        · rw [herr] at hrec
          cases hrec
        · rw [hok] at hrec
          cases hrec
          exact (h.without i).post_receiver hrel
      -- DATA of the other direction: the sender of this one has received it
      · have hs := h.sends.receive p
        rw [Side.other_other] at hrec ⊢
        rw [hrec] at hs
        refine (h.without i).post_sender hs ?_
        intro q hq hqk
        rw [List.mem_singleton.mp hq] at hqk
        cases hqk
  | @refuse i t p error l hi hk _ hrec =>
      rw [← handed_nil ((x.without i).post t.other _ _) t.other]
      rcases t.eq_or_eq_other s with rfl | rfl
      · obtain ⟨k, hc⟩ := h.genuine p (List.mem_of_getElem? hi) hk
        rcases h.receives.data hn hc with ⟨herr, -⟩ | ⟨released', l', hok, -⟩
        · rw [herr] at hrec
          cases hrec
          exact (h.without i).post_receiver (by simpa using h.receives)
        · rw [hok] at hrec
          cases hrec
      · have hs := h.sends.receive p
        rw [Side.other_other] at hrec ⊢
        rw [hrec] at hs
        exact (h.without i).post_sender hs fun q hq => nomatch hq
  | @ack i t p hi hk _ =>
      rw [← handed_nil ((x.without i).post t.other _ _) t.other]
      rcases t.eq_or_eq_other s with rfl | rfl
      · refine (h.without i).post_receiver ?_
        simpa using h.receives.of_ordering
          (LockedEngine.handleAck_frame (x.engine t.other) p x.now).2
      · rw [Side.other_other]
        exact (h.without i).post_sender (h.sends.handleAck p x.now) fun q hq => nomatch hq

/-- A set-up step keeps a direction in order if it starts the sender anew only before its first
payload and the receiver only before it hands on the first. -/
theorem InOrder.setup {config : Side → Reliability} (hv : ∀ t, (config t).Valid)
    (hf : ∀ t, (config t).initialReceive = .first) (h : x.InOrder s) (hu : x.Usual)
    (hn : (x.sent s).length < 0x80000000) {restarted : Option Side}
    (hx : Setup config restarted x x') (hs : restarted = some s → x.sent s = [])
    (hr : restarted = some s.other → x.got s.other = []) : x'.InOrder s := by
  cases hx with
  | connect t =>
      rw [← handed_nil (x.post t _ _) t]
      rcases t.eq_or_eq_other s with rfl | rfl
      · refine h.post_sender ?_ ?_
        · rw [hs rfl]
          exact LockedEngine.sends_start (hv t)
        · intro q hq hk
          rw [List.mem_singleton.mp hq] at hk
          cases hk
      · refine h.post_receiver ?_
        rw [hr rfl]
        exact LockedEngine.receives_start (hf _)
  -- the new engine answers with a packet that is no DATA, so the wire stays genuine
  | @syn x i t p released l hi hk ha hrec =>
      have hz := (hu.wire _ (List.mem_of_getElem? hi)).seq_of_syn hk
      rw [LockedEngine.receive_start_syn (hf _) hk ha hz] at hrec
      cases hrec
      rcases t.eq_or_eq_other s with rfl | rfl
      · refine (h.without i).post_receiver ?_
        show LockedEngine.Receives _ _ (x.got t.other ++ _)
        rw [hr rfl]
        exact LockedEngine.receives_start (hf _)
      · rw [Side.other_other] at hs ⊢
        refine (h.without i).post_sender ?_ ?_
        · show LockedEngine.Sends _ (x.sent s)
          rw [hs rfl]
          exact LockedEngine.sends_start (hv s)
        · intro q hq hqk
          rw [List.mem_singleton.mp hq] at hqk
          cases hqk
  | @synAck x i t p released l hi hk ha hrec =>
      have hz := (hu.wire _ (List.mem_of_getElem? hi)).seq_of_syn hk
      rcases t.eq_or_eq_other s with rfl | rfl
      · rw [h.receives.synAck hn hk ha hz] at hrec
        cases hrec
        refine (h.without i).post_receiver ?_
        simpa using h.receives
      · have hsend := h.sends.receive p
        rw [Side.other_other] at hrec ⊢
        rw [hrec] at hsend
        exact (h.without i).post_sender hsend fun q hq => nomatch hq

/-- What the receiver handed on is the front of what the sender took up. -/
theorem InOrder.got_front (h : x.InOrder s) : x.got s.other <+: x.sent s := by
  rw [h.receives.front]
  exact List.take_prefix _ _

/-! ## Completeness -/

theorem Complete.post_handed (h : x.Complete)
    (hc : l.Covers (x.engine s.other) (x.sent s) (x.got s.other))
    (ht : ∀ i < (x.sent s.other).length, (x.engine s).Took (x.got s) i →
      l.Took (x.got s ++ released.map (·.payload)) i)
    (hp : ∀ p ∈ packets, p.kind ≠ .syn ∧ (p.kind = .ack → ∃ k < (x.sent s.other).length,
      p.ack = .nth (k + 1) ∧ l.Took (x.got s ++ released.map (·.payload)) k)) :
    ((x.post s l packets).handed s released).Complete := by
  refine ⟨Side.forall_of s ?_ ?_, Side.forall_of s ?_ ?_, ?_⟩
  · simpa using hc
  · intro k hk
    have hcov := h.covers s.other k
    simp only [engine_handed, sent_handed, sent_post, engine_post_other, Side.other_other,
      engine_post_self, got_handed_self, got_post] at hk hcov ⊢
    exact (hcov hk).imp id (ht k hk)
  -- acknowledgements on their way to this side: old ones, or one for what was just taken
  · intro p hm hk
    rw [wire_handed, mem_wire_post] at hm
    simp only [sent_handed, sent_post, engine_handed, engine_post_self, got_handed_self, got_post]
    rcases hm with hm | ⟨-, hm⟩
    · obtain ⟨k, hlt, hack, htook⟩ := h.acks s p hm hk
      exact ⟨k, hlt, hack, ht k hlt htook⟩
    · exact (hp p hm).2 hk
  · intro p hm hk
    rw [wire_handed, mem_wire_post] at hm
    simp only [sent_handed, sent_post, engine_handed, engine_post_other, got_handed_other,
      got_post]
    rcases hm with hm | ⟨hne, -⟩
    · exact h.acks s.other p hm hk
    · exact absurd hne s.other_ne
  · intro m hm
    rw [wire_handed, mem_wire_post] at hm
    rcases hm with hm | ⟨-, hm⟩
    · exact h.quiet m hm
    · exact (hp m.2 hm).1

theorem Complete.post (h : x.Complete)
    (hc : l.Covers (x.engine s.other) (x.sent s) (x.got s.other))
    (ho : l.ordering = (x.engine s).ordering)
    (hp : ∀ p ∈ packets, p.kind = .data) : (x.post s l packets).Complete := by
  rw [← handed_nil (x.post s l packets) s]
  refine h.post_handed hc ?_ ?_
  · intro i _ htook
    rw [LockedEngine.Took, ho, List.map_nil, List.append_nil]
    exact htook
  · intro p hm
    have hk := hp p hm
    constructor
    · simp [hk]
    · simp [hk]

theorem Complete.post_taken (h : x.Complete) {q : Packet} {payload : Bytes}
    (hc : l.Covers (x.engine s.other) (x.sent s ++ [payload]) (x.got s.other))
    (ho : l.ordering = (x.engine s).ordering)
    (hp : ∀ p ∈ packets, p.kind = .data) :
    ((x.post s l packets).taken s q payload).Complete := by
  -- what the step puts on the wire is DATA, so acknowledgements and SYNs were there before
  have hkinds : ∀ t p, (t, p) ∈ (x.post s l packets).wire → p.kind ≠ .data → (t, p) ∈ x.wire := by
    intro t p hm hk
    rcases (mem_wire_post _ _ _ _).mp hm with hm | ⟨-, hm⟩
    · exact hm
    · exact absurd (hp p hm) hk
  refine ⟨Side.forall_of s ?_ ?_, Side.forall_of s ?_ ?_, ?_⟩
  · simpa using hc
  · intro k hk
    have hcov := h.covers s.other k
    simp only [engine_taken, sent_taken_other, engine_post_other, Side.other_other,
      engine_post_self, got_taken, got_post, LockedEngine.Took, ho] at hk hcov ⊢
    exact hcov hk
  · intro p hm hk
    obtain ⟨k, hlt, hack, htook⟩ := h.acks s p (hkinds s p hm (by rw [hk]; decide)) hk
    simp only [sent_taken_other, engine_taken, engine_post_self, got_taken, got_post, sent_post,
      LockedEngine.Took, ho]
    exact ⟨k, hlt, hack, htook⟩
  · intro p hm hk
    obtain ⟨k, hlt, hack, htook⟩ := h.acks s.other p (hkinds _ p hm (by rw [hk]; decide)) hk
    simp only [Side.other_other, sent_taken_self, engine_taken, engine_post_other, got_taken,
      got_post, sent_post] at hlt ⊢
    refine ⟨k, ?_, hack, htook⟩
    rw [List.length_append]
    omega
  · intro m hm hk
    exact h.quiet m (hkinds m.1 m.2 hm (by rw [hk]; decide)) hk

theorem Complete.of_wire (h : x.Complete) {wire : List (Side × Packet)}
    (hw : ∀ m ∈ wire, m ∈ x.wire) : Complete { x with wire } :=
  ⟨h.covers, fun t p hm => h.acks t p (hw _ hm), fun m hm => h.quiet m (hw m hm)⟩

theorem Complete.without (h : x.Complete) (i : Nat) : (x.without i).Complete :=
  h.of_wire fun _ hm => List.mem_of_mem_eraseIdx hm

theorem Complete.step (h : x.Complete) (ho : ∀ s, x.InOrder s) (hn : x.Bounded)
    (hx : Step able x x') : x'.Complete := by
  cases hx with
  | @send s payload p l hlen hsend =>
      refine h.post_taken ((h.covers s).sendData (ho s).sends hlen hsend)
        (LockedEngine.ordering_of_sendData hsend) fun q hq => ?_
      rw [List.mem_singleton.mp hq]
      exact (LockedEngine.carries_of_sendData (ho s).sends hlen hsend).kind
  | scan s =>
      refine h.post ((h.covers s).timedOut x.now)
        (LockedEngine.timedOut_frame (x.engine s) x.now).2.1 fun p hp => ?_
      obtain ⟨k, hk⟩ := (ho s).sends.carries_of_timedOut hp
      exact hk.kind
  | elapse span => exact ⟨h.covers, h.acks, h.quiet⟩
  | lose i => exact h.without i
  | double i =>
      refine h.of_wire ?_
      intro m hm
      exact mem_of_mem_double hm
  | @data i s p released l hi hk _ hrec =>
      have hm := List.mem_of_getElem? hi
      obtain ⟨k, hc⟩ := (ho s).genuine p hm hk
      have hr := (ho s).receives
      have hcov := (h.covers s.other).of_receive p
      rcases hr.data (hn s) hc with ⟨herr, -⟩ | ⟨released', l', hok, -, hkeep⟩
      · rw [herr] at hrec
        cases hrec
      · rw [hok] at hrec hcov
        cases hrec
        refine (h.without i).post_handed hcov ?_ ?_
        · rw [Side.other_other]
          exact fun i hi htook => hkeep i hi (.inr htook)
        · intro q hq
          rw [List.mem_singleton.mp hq, Side.other_other]
          -- the one packet sent is the acknowledgement of a packet that was released or is held
          refine ⟨nofun, fun _ => ⟨k, hc.lt, ?_, hkeep k hc.lt (.inl rfl)⟩⟩
          rw [← SeqNum.next_nth, ← hc.seq]
          rfl
  | @refuse i s p error l hi hk _ hrec =>
      have hm := List.mem_of_getElem? hi
      obtain ⟨k, hc⟩ := (ho s).genuine p hm hk
      have hr := (ho s).receives
      rcases hr.data (hn s) hc with ⟨herr, -⟩ | ⟨released', l', hok, -⟩
      · rw [herr] at hrec
        cases hrec
        exact (h.without i).post (h.covers s.other) rfl fun q hq => nomatch hq
      · rw [hok] at hrec
        cases hrec
  | @ack i s p hi hk _ =>
      have hm := List.mem_of_getElem? hi
      obtain ⟨k, hlt, hack, htook⟩ := h.acks s p hm hk
      have hcov := h.covers s.other
      rw [Side.other_other] at hcov
      refine (h.without i).post ?_ (LockedEngine.handleAck_frame (x.engine s.other) p x.now).2
        fun q hq => nomatch hq
      rw [Side.other_other]
      exact hcov.handleAck (ho s.other).sends (hn s.other) hack hlt htook x.now

/-- With nothing in flight everything that was taken up was handed on. -/
theorem Complete.got_eq (h : x.Complete) (ho : x.InOrder s)
    (hn : (x.sent s).length < 0x80000000) (hempty : (x.engine s).tracker.entries = []) :
    x.got s.other = x.sent s := by
  have hr := ho.receives
  refine ho.got_front.eq_of_length (Nat.le_antisymm hr.expects.le ?_)
  refine Nat.le_of_not_lt ?_
  intro hlt
  rcases h.covers s _ hlt with ⟨u, hu, -⟩ | hlt' | hhas
  · rw [hempty] at hu
    cases hu
  · exact Nat.lt_irrefl _ hlt'
  · exact hr.expects.not_has hn hhas

/-! ## Several steps -/

theorem Step.sent_le (hx : Step able x x') (s : Side) :
    (x.sent s).length ≤ (x'.sent s).length := by
  cases hx with
  | @send t payload p l hlen hsend =>
      rcases s.eq_or_eq_other t with rfl | rfl
      · rw [sent_taken_self, List.length_append]
        exact Nat.le_add_right _ _
      · rw [sent_taken_other]
        exact Nat.le_refl _
  | _ => exact Nat.le_refl _

theorem Usual.steps (h : x.Usual) (hx : Steps able x x') : x'.Usual := by
  induction hx with
  | refl => exact h
  | tail _ hx ih => exact ih.step hx

theorem InOrder.steps (h : x.InOrder s) (hx : Steps able x x') :
    (x'.sent s).length < 0x80000000 → x'.InOrder s := by
  induction hx with
  | refl => exact fun _ => h
  | tail _ hx ih =>
      intro hn
      have hn' := Nat.lt_of_le_of_lt (hx.sent_le s) hn
      exact (ih hn').step hn' hx

end Steps

end Exchange

end ReliableDatagram
