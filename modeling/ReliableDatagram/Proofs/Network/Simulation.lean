/-
Moves of a network as steps of an exchange.

Each move of a run is a number of steps, and the log records what was sent and
handed on.  Most moves are one step or none; time that goes by is as many as
there are scans.  A step that sets a connection up comes of a connect or of a SYN
on the wire only; so in a run without connects all steps belong to the data
phase.

`Shows` ties the three together: the network stands for the exchange, and the log
records its ghost state.  There is one lemma per kind of move, and the last lemma
puts them together.  Everything that is proved of exchanges holds of runs through
it, without a look at bytes, addresses or connection tables.

The steps say which side can work off which kind of packet.  A node that has no
buffer to receive with, or cannot have an engine, drops what arrives, and on the
side of the exchange that is a packet lost.  A damaged datagram is a packet lost
as well, since it does not decode.

A delivery that sets a connection up is told apart from one that does not by what
it does to the engine, and it also carries the reason: the side that is started
anew is one that the log can see restarting, and there was a SYN on the wire.
-/
import Mathlib.Data.List.InsertIdx
import ReliableDatagram.Proofs.Network.Clock

namespace ReliableDatagram

/-- A log that tells what an exchange has sent and handed on. -/
structure Log.Records (log : Log) (x : Exchange) : Prop where
  accepted : ∀ s, log.accepted s = x.sent s
  numbers : ∀ s, log.numbers s = x.numbers s
  dispatched : ∀ s, log.dispatched s = x.got s

namespace Log

theorem accepted_append (log : Log) (h : Happening) (s : Side) :
    accepted (log ++ [h]) s = log.accepted s ++ ((h.accepted? s).map (·.2)).toList := by
  simp only [accepted, List.filterMap_append, List.map_append]
  cases ha : h.accepted? s with
  | none => simp [ha]
  | some a => simp [ha]

theorem numbers_append (log : Log) (h : Happening) (s : Side) :
    numbers (log ++ [h]) s = log.numbers s ++ ((h.accepted? s).map (·.1)).toList := by
  simp only [numbers, List.filterMap_append, List.map_append]
  cases ha : h.accepted? s with
  | none => simp [ha]
  | some a => simp [ha]

theorem dispatched_append (log : Log) (h : Happening) (s : Side) :
    dispatched (log ++ [h]) s = log.dispatched s ++ h.events.filterMap (Event.payload? s) := by
  simp [dispatched]

theorem transmitted_append (log : Log) (h : Happening) (s : Side) :
    transmitted (log ++ [h]) s =
      log.transmitted s ++ h.events.filterMap (Event.bytes? s) := by
  simp [transmitted]

theorem records_start (config : Side → Reliability) : Records [] (.start config) :=
  ⟨fun _ => rfl, fun _ => rfl, fun _ => rfl⟩

section Records

variable {log : Log} {x x' : Exchange} {h : Happening}

theorem Records.append (hr : Records log x) (hsent : x'.sent = x.sent)
    (hnumbers : x'.numbers = x.numbers) (hgot : x'.got = x.got)
    (ha : ∀ s, h.accepted? s = none) (he : ∀ s, h.events.filterMap (Event.payload? s) = []) :
    Records (log ++ [h]) x' := by
  refine ⟨?_, ?_, ?_⟩
  · intro s
    rw [accepted_append, ha, hr.accepted, hsent]
    exact List.append_nil _
  · intro s
    rw [numbers_append, ha, hr.numbers, hnumbers]
    exact List.append_nil _
  · intro s
    rw [dispatched_append, he, hr.dispatched, hgot, List.append_nil]

theorem Records.append_handed (hr : Records log x) {s : Side} {released : List Packet}
    (hsent : x'.sent = x.sent) (hnumbers : x'.numbers = x.numbers) (hgot : x'.got = x.got)
    (ha : ∀ t, h.accepted? t = none) (he : ∀ t, h.events.filterMap (Event.payload? t) =
      if t = s then released.map (·.payload) else []) :
    Records (log ++ [h]) (x'.handed s released) := by
  refine ⟨?_, ?_, Side.forall_of s ?_ ?_⟩
  · intro t
    rw [accepted_append, ha, hr.accepted, Exchange.sent_handed, hsent]
    exact List.append_nil _
  · intro t
    rw [numbers_append, ha, hr.numbers, Exchange.numbers_handed, hnumbers]
    exact List.append_nil _
  · rw [dispatched_append, he, if_pos rfl, hr.dispatched, Exchange.got_handed_self, hgot]
  · rw [dispatched_append, he, if_neg s.other_ne, hr.dispatched, Exchange.got_handed_other, hgot,
      List.append_nil]

theorem Records.append_taken (hr : Records log x) {s : Side} {p : Packet} {payload : Bytes}
    (hsent : x'.sent = x.sent) (hnumbers : x'.numbers = x.numbers) (hgot : x'.got = x.got)
    (ha : ∀ t, h.accepted? t = if s = t then some (p.seq, payload) else none)
    (he : ∀ t, h.events.filterMap (Event.payload? t) = []) :
    Records (log ++ [h]) (x'.taken s p payload) := by
  refine ⟨Side.forall_of s ?_ ?_, Side.forall_of s ?_ ?_, ?_⟩
  · rw [accepted_append, ha, if_pos rfl, hr.accepted, Exchange.sent_taken_self, hsent]
    rfl
  · rw [accepted_append, ha, if_neg s.ne_other, hr.accepted, Exchange.sent_taken_other, hsent]
    exact List.append_nil _
  · rw [numbers_append, ha, if_pos rfl, hr.numbers, Exchange.numbers_taken_self, hnumbers]
    rfl
  · rw [numbers_append, ha, if_neg s.ne_other, hr.numbers, Exchange.numbers_taken_other, hnumbers]
    exact List.append_nil _
  · intro t
    rw [dispatched_append, he, hr.dispatched, Exchange.got_taken, hgot, List.append_nil]

end Records

end Log

namespace Pair

/-- A network that stands for an exchange, with a log that records it. -/
structure Shows (S : Pair) (net : Network) (log : Log) (x : Exchange) : Prop where
  stands : S.Stands net x
  records : log.Records x

section Shows

variable {S : Pair} {net : Network} {log : Log} {x : Exchange}

theorem Shows.connect (h : S.Shows net log x) (s : Side) :
    ∃ x', (x' = x ∧ ¬ (S.config s).Builds ∨
        x' = x.post s (.start (S.config s).reliability) [.syn .zero]) ∧
      S.Shows (S.play net (.connect s)).2.1 (S.record net log (.connect s)) x' := by
  obtain ⟨node, hn, hr⟩ := h.stands.nodes s
  rcases hr.keeps.connect with ⟨hb, error, heq⟩ | ⟨e, heq, hk⟩
  · obtain ⟨net', hact, hs⟩ := h.stands.act_quiet (.connect (S.address s.other)) hn heq hr.keeps
    refine ⟨x, .inl ⟨rfl, hb⟩, ?_⟩
    rw [record, play, hact]
    exact ⟨hs, h.records.append rfl rfl rfl (fun _ => rfl) fun _ => rfl⟩
  · obtain ⟨net', hact, hs⟩ := h.stands.act (.connect (S.address s.other)) hn heq hk
      fun effect he => by
        rw [List.mem_singleton.mp he]
        rfl
    refine ⟨_, .inr rfl, ?_⟩
    rw [record, play, hact]
    exact ⟨hs, h.records.append rfl rfl rfl (fun _ => rfl) fun _ => rfl⟩

theorem Shows.send (h : S.Shows net log x) (s : Side) (payload : Bytes) :
    (S.Shows (S.play net (.send s payload)).2.1 (S.record net log (.send s payload)) x ∧
        (payload.length ≤ maxPayload → (S.config s).Builds → (x.engine s).sendData payload x.now =
          (.error (x.engine s).windowFull, x.engine s))) ∨
      ∃ p l, payload.length ≤ maxPayload ∧ (S.config s).Builds ∧
        (x.engine s).sendData payload x.now = (.ok p, l) ∧
        S.Shows (S.play net (.send s payload)).2.1 (S.record net log (.send s payload))
          ((x.post s l [p]).taken s p payload) := by
  obtain ⟨node, hn, hr⟩ := h.stands.nodes s
  rcases hr.keeps.send payload net.now with ⟨error, e, heq, hk, hrefused⟩ |
    ⟨p, l, e, hlen, hb, hsend, heq, hk⟩
  · rw [h.stands.now] at hrefused
    obtain ⟨net', hact, hs⟩ := h.stands.act_quiet (.send (S.address s.other) payload) hn heq hk
    refine .inl ⟨?_, hrefused⟩
    rw [record, play, hact]
    exact ⟨hs, h.records.append rfl rfl rfl (fun _ => rfl) fun _ => rfl⟩
  · rw [h.stands.now] at hsend
    obtain ⟨net', hact, hs⟩ := h.stands.act (.send (S.address s.other) payload) hn heq hk
      fun effect he => by
        rw [List.mem_singleton.mp he]
        rfl
    refine .inr ⟨p, l, hlen, hb, hsend, ?_⟩
    rw [record, play, hact]
    exact ⟨hs.taken s p payload,
      h.records.append_taken rfl rfl rfl (fun _ => rfl) fun _ => rfl⟩

theorem Shows.scan (h : S.Shows net log x) (s : Side) :
    ∃ x', Exchange.Steps S.Handles x x' ∧
      S.Shows (S.play net (.scan s)).2.1 (S.record net log (.scan s)) x' := by
  obtain ⟨net', events, hact, hs, he⟩ := h.stands.scan s
  refine ⟨_, .single (.scan s), ?_⟩
  rw [record, play, hact]
  exact ⟨hs, h.records.append rfl rfl rfl (fun _ => rfl) he⟩

/-- Time goes by.  What a side has in flight stays so, and is sent again if the time is longer
than timeout and interval of the side. -/
theorem Shows.advance (h : S.Shows net log x) (span : Duration) :
    ∃ x', Exchange.Steps S.Handles x x' ∧
      S.Shows (S.play net (.advance span)).2.1 (S.record net log (.advance span)) x' ∧
      x'.sent = x.sent ∧ (∀ s k, (x'.engine s).Tracks k ↔ (x.engine s).Tracks k) ∧
      ∃ again, x'.wire = x.wire ++ again ∧ (x.Timely → ∀ s,
        (x.engine s).roundTrip.timeout.nanos + (S.config s).scanInterval.nanos < span.nanos →
          ∀ u ∈ (x.engine s).tracker.entries, (s, u.packet) ∈ again) := by
  obtain ⟨x', net', events, hadv, hs, hsteps, he, hsent, hnumbers, hgot, hrest⟩ :=
    h.stands.advance S.Handles span
  refine ⟨x', hsteps, ?_, hsent, hrest⟩
  rw [record, play, hadv]
  exact ⟨hs, h.records.append hsent hnumbers hgot (fun _ => rfl) he⟩

theorem Stands.without (h : S.Stands net x) (i : Nat) :
    S.Stands { net with wire := net.wire.eraseIdx i } (x.without i) :=
  ⟨h.timer, h.length, h.nodes, by simp only [h.wire, Exchange.without, List.eraseIdx_map], h.now⟩

theorem Stands.getElem?_wire (h : S.Stands net x) {i : Nat} {d : Datagram} :
    net.wire[i]? = some d ↔ ∃ m, x.wire[i]? = some m ∧ S.datagram m = d := by
  rw [h.wire, List.getElem?_map, Option.map_eq_some_iff]

theorem kind_of_usual {p : Packet} (h : Exchange.UsualPacket p) :
    p.kind = .data ∨ p.kind = .ack ∨ p.kind = .syn :=
  h.imp id (Or.imp id And.left)

/-- The set-up step that a move amounts to, if it is one. -/
def SetsUp (S : Pair) (net : Network) (m : Move) (x x' : Exchange) : Prop :=
  ∃ restarted, Exchange.Setup (fun s => (S.config s).reliability) restarted x x' ∧
    (∀ s, restarted = some s → S.restarts net m s = true) ∧
    ((∃ s, m = .connect s) ∨ ∃ q ∈ x.wire, q.2.kind = .syn)

/-- A datagram of one side is delivered.  The other side does nothing, or its engine reacts to
the packet. -/
theorem Shows.deliver_cases (h : S.Shows net log x) (hu : x.Usual) {i : Nat} {s : Side}
    {p : Packet} (hi : x.wire[i]? = some (s, p)) (damage : Damage) :
    (S.Shows (S.play net (.deliver i damage)).2.1 (S.record net log (.deliver i damage))
        (x.without i) ∧ (S.Serves s.other → damage.apply p.encode ≠ p.encode)) ∨
      ∃ l packets released,
        LockedEngine.Reacts (S.config s.other).reliability (x.engine s.other) x.now p l packets
          released ∧
        S.Shows (S.play net (.deliver i damage)).2.1 (S.record net log (.deliver i damage))
          (((x.without i).post s.other l packets).handed s.other released) ∧
        (S.record net log (.deliver i damage)).transmitted s.other =
          log.transmitted s.other ++ packets.map (·.encode) ∧
        damage.apply p.encode = p.encode ∧ S.Handles s.other p.kind := by
  have hd := h.stands.getElem?_wire.mpr ⟨_, hi, rfl⟩
  obtain ⟨net', events, hover, hcase⟩ := (h.stands.without i).handOver s
    (kind_of_usual (hu.wire _ (List.mem_of_getElem? hi))) damage
  have hplay : S.play net (.deliver i damage) = (.done, net', events) := by
    simp only [play, hd]
    exact congrArg (Prod.mk _) hover
  rw [record, hplay]
  rcases hcase with ⟨rfl, hs, hdamaged⟩ |
    ⟨l, packets, effects, released, hreact, hs, rfl, -, hpackets, hpayloads, heq, hable⟩
  · refine .inl ⟨⟨hs, ?_⟩, hdamaged⟩
    exact h.records.append rfl rfl rfl (fun _ => rfl) fun _ => rfl
  · refine .inr ⟨l, packets, released, hreact, ⟨hs.handed s.other released, ?_⟩, ?_, heq, hable⟩
    · refine h.records.append_handed rfl rfl rfl (fun _ => rfl) ?_
      intro t
      rw [Effect.payloads_of_events, hpayloads]
    · rw [Log.transmitted_append, Effect.bytes_of_events, hpackets]

theorem Shows.deliver (h : S.Shows net log x) (hu : x.Usual) (i : Nat) (damage : Damage) :
    ∃ x', (Exchange.Steps S.Handles x x' ∨ S.SetsUp net (.deliver i damage) x x') ∧
      S.Shows (S.play net (.deliver i damage)).2.1 (S.record net log (.deliver i damage)) x' := by
  cases hd : net.wire[i]? with
  | none =>
      refine ⟨x, .inl .refl, ?_⟩
      simp only [record, play, hd]
      exact ⟨h.stands, h.records.append rfl rfl rfl (fun _ => rfl) fun _ => rfl⟩
  | some d =>
      obtain ⟨⟨s, p⟩, hi, rfl⟩ := h.stands.getElem?_wire.mp hd
      have hm := List.mem_of_getElem? hi
      rcases h.deliver_cases hu hi damage with ⟨hs, -⟩ |
        ⟨l, packets, released, hreact, hs, -, heq, hable⟩
      · exact ⟨_, .inl (.single (.lose i)), hs⟩
      · refine ⟨_, ?_, hs⟩
        cases hreact with
        | take hk hrec => exact .inl (.single (.data hi hk (hk ▸ hable) hrec))
        | refuse hk hrec =>
            rw [Exchange.handed_nil]
            exact .inl (.single (.refuse hi hk (hk ▸ hable) hrec))
        | ack hk =>
            rw [Exchange.handed_nil]
            exact .inl (.single (.ack hi hk (hk ▸ hable)))
        | syn hk ha hrec =>
            refine .inr ⟨_, .syn hi hk ha hrec, ?_, .inr ⟨_, hm, hk⟩⟩
            intro t ht
            cases ht
            simp [restarts, hd, datagram, startsAnew, heq, Packet.decode_encode, Packet.isKind,
              hk, ha]
        | synAck hk ha hrec =>
            exact .inr ⟨_, .synAck hi hk ha hrec, (fun _ ht => nomatch ht), .inr ⟨_, hm, hk⟩⟩

theorem Shows.double (h : S.Shows net log x) (i : Nat) :
    S.Shows (S.play net (.double i)).2.1 (S.record net log (.double i))
      { x with wire := x.wire ++ x.wire[i]?.toList } := by
  refine ⟨⟨h.stands.timer, h.stands.length, h.stands.nodes, ?_, h.stands.now⟩, ?_⟩
  · show net.wire ++ net.wire[i]?.toList = _
    rw [h.stands.wire, List.map_append, List.getElem?_map, Option.toList_map]
  · exact h.records.append rfl rfl rfl (fun _ => rfl) fun _ => rfl

/-- Every move is a number of steps of the data phase, or sets a connection up. -/
theorem Shows.play (h : S.Shows net log x) (hu : x.Usual) (m : Move) :
    ∃ x', (Exchange.Steps S.Handles x x' ∨ S.SetsUp net m x x') ∧
      S.Shows (S.play net m).2.1 (S.record net log m) x' := by
  cases m with
  | connect s =>
      obtain ⟨x', hx, hs⟩ := h.connect s
      refine ⟨x', ?_, hs⟩
      rcases hx with ⟨rfl, -⟩ | rfl
      · exact .inl .refl
      · refine .inr ⟨_, .connect s, ?_, .inl ⟨s, rfl⟩⟩
        intro t ht
        cases ht
        simp [restarts]
  | send s payload =>
      rcases h.send s payload with ⟨hs, -⟩ | ⟨p, l, hlen, -, hsend, hs⟩
      · exact ⟨x, .inl .refl, hs⟩
      · exact ⟨_, .inl (.single (.send hlen hsend)), hs⟩
  | scan s =>
      obtain ⟨x', hx, hs⟩ := h.scan s
      exact ⟨x', .inl hx, hs⟩
  | elapse span =>
      refine ⟨_, .inl (.single (.elapse span)), h.stands.elapse span, ?_⟩
      exact h.records.append rfl rfl rfl (fun _ => rfl) fun _ => rfl
  | advance span =>
      obtain ⟨x', hx, hs, -⟩ := h.advance span
      exact ⟨x', .inl hx, hs⟩
  | lose i =>
      refine ⟨_, .inl (.single (.lose i)), h.stands.without i, ?_⟩
      exact h.records.append rfl rfl rfl (fun _ => rfl) fun _ => rfl
  | double i => exact ⟨_, .inl (.single (.double i)), h.double i⟩
  | deliver i damage => exact h.deliver hu i damage

end Shows

end Pair

end ReliableDatagram
