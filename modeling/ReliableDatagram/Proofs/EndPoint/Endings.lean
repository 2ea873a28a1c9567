/-
Which FINs an end point sends.

A FIN without ACK flag goes out with a close, if there is a connection to be
closed, and a FIN|ACK in answer to a FIN without the flag.  Nothing else makes
an end point send a FIN: calls and replies of another kind do not, and what
is sent again is DATA, since an engine has nothing else in flight.  That the
engines have nothing else is an invariant, so there is one lemma per input; it
says that the invariant is kept and which FINs go out.

`TracksData` is the invariant of one engine and `Proper` that of all engines of an
end point.  An engine is asked for DATA packets alone, by `sendData`;
acknowledging, receiving and scanning put nothing new into it.

What an input brings about is an `Outcome.Orderly`: the end point afterwards is
proper, and every FIN among the effects is one of the FINs that the input allows.
Those are a relation, `Ends`, with one constructor for the close and one for the
answer to a FIN. The lemmas about the single inputs leave it as a parameter where
no FIN is sent at all, so they hold of any set of FINs, the empty one included.

Only the ACK flag tells a FIN from its answer, so that is all that the relation
says of either packet.  Their numbers play no part, as no end point looks at the
number of a FIN before it drops the connection.
-/
import ReliableDatagram.Proofs.EndPoint.Reaction
import ReliableDatagram.Proofs.Engine.Stream

namespace ReliableDatagram

/-! ## Engines have DATA in flight only -/

namespace Engine

/-- An engine with nothing but DATA in flight. -/
def TracksData (e : Engine) : Prop :=
  ∃ l, e.Follows l ∧ ∀ u ∈ l.tracker.entries, u.packet.kind = .data

variable {e : Engine}

theorem tracksData_new {kind : EngineKind} {config : Reliability}
    (h : Engine.new kind config = .ok e) : e.TracksData :=
  ⟨_, (follows_start h).2, List.forall_mem_nil _⟩

theorem TracksData.sendData (h : e.TracksData) (payload : Bytes) (now : Instant) :
    (e.sendData payload now).2.TracksData ∧
      ∀ p, (e.sendData payload now).1 = .ok p → p.kind = .data := by
  obtain ⟨l, hf, ht⟩ := h
  obtain ⟨hanswer, hnext⟩ := hf.sendData payload now
  rw [hanswer]
  cases hsend : l.sendData payload now with
  | mk answer l' =>
      rw [hsend] at hnext
      cases answer with
      | error error =>
          have hsame : l' = l := by
            rcases l.sendData_cases payload now with herr | ⟨hfull, hv⟩
            · rw [herr] at hsend
              exact (congrArg Prod.snd hsend).symm
            · rw [LockedEngine.sendData_of_isVacant hfull hv] at hsend
              cases hsend
          refine ⟨⟨l, hsame ▸ hnext, ht⟩, fun p hp => ?_⟩
          cases hp
      | ok p =>
          obtain ⟨rfl, rfl⟩ := LockedEngine.eq_of_sendData hsend
          refine ⟨⟨_, hnext, fun u hu => ?_⟩, fun p hp => ?_⟩
          · rcases List.mem_cons.mp hu with rfl | hu
            · rfl
            · exact ht u hu
          · cases hp
            rfl

theorem TracksData.handleAck (h : e.TracksData) (p : Packet) (now : Instant) :
    (e.handleAck p now).2.TracksData := by
  obtain ⟨l, hf, ht⟩ := h
  exact ⟨_, (hf.handleAck p now).2, fun u hu => ht u (LockedEngine.mem_of_mem_handleAck hu)⟩

theorem TracksData.receive (h : e.TracksData) (p : Packet) : (e.receive p).2.TracksData := by
  obtain ⟨l, hf, ht⟩ := h
  have htracker : (l.receive p).2.tracker = l.tracker :=
    @LockedEngine.tracker_of_receive l p (l.receive p).1 _ rfl
  refine ⟨_, (hf.receive p).2, ?_⟩
  rw [htracker]
  exact ht

theorem TracksData.timedOut (h : e.TracksData) (now : Instant) :
    (e.timedOut now).2.TracksData ∧ ∀ p ∈ (e.timedOut now).1, p.kind = .data := by
  obtain ⟨l, hf, ht⟩ := h
  obtain ⟨hpackets, hnext⟩ := hf.timedOut now
  refine ⟨⟨_, hnext, fun u hu => ?_⟩, fun p hp => ?_⟩
  · rw [(l.timedOut_frame now).2.2.2] at hu
    obtain ⟨v, hv, rfl⟩ := List.mem_map.mp hu
    rw [Tracker.packet_renewed]
    exact ht v hv
  · rw [hpackets] at hp
    obtain ⟨u, hu, -, rfl⟩ := (l.mem_timedOut now p).mp hp
    exact ht u hu

end Engine

/-! ## Where a FIN comes from -/

theorem Packet.hasFlag_fin (seq : SeqNum) : (fin seq).hasFlag .ack = false := by
  show Flags.fin.contains .ack = false
  decide

theorem Packet.hasFlag_finAck (seq ack : SeqNum) : (finAck seq ack).hasFlag .ack = true := by
  show (Flags.fin.union .ack).contains .ack = true
  decide

namespace EndPoint

/-- An end point with checked settings whose engines have nothing but DATA in flight. -/
structure Proper (e : EndPoint) : Prop where
  valid : e.config.Valid
  tracksData : ∀ entry ∈ e.connections.entries, entry.2.TracksData

/-- An input that makes an end point send a FIN: a close of a connection that there is, or a FIN
without ACK flag. -/
inductive Ends (e : EndPoint) (target : Address) : Input → Packet → Prop where
  | close {engine : Engine} {p : Packet} :
      e.connections.find? target = some engine → p.hasFlag .ack = false →
      Ends e target (.close target) p
  | reply {bytes : Bytes} {p q : Packet} :
      Packet.decode bytes = .ok q → q.kind = .fin → q.hasFlag .ack = false →
      p.hasFlag .ack = true → Ends e target (.datagram target bytes) p

end EndPoint

/-- An outcome that leaves the end point proper and sends those FINs only. -/
structure Outcome.Orderly (o : Outcome) (fins : Address → Packet → Prop) : Prop where
  proper : o.endPoint.Proper
  fins : ∀ target p, .transmit target p ∈ o.effects → p.kind = .fin → fins target p

namespace EndPoint

section Proper

variable {e : EndPoint} {fins : Address → Packet → Prop}

theorem Proper.orderly (h : e.Proper) (answer : Answer) :
    (Outcome.mk answer e []).Orderly fins :=
  ⟨h, fun _ _ hm => absurd hm List.not_mem_nil⟩

theorem Proper.setEngine (h : e.Proper) (peer : Address) {engine : Engine}
    (hengine : engine.TracksData) : (e.setEngine peer engine).Proper := by
  refine ⟨h.valid, fun entry hm => ?_⟩
  rcases Assoc.mem_insert hm with rfl | hm
  · exact hengine
  · exact h.tracksData entry hm

theorem Proper.drop (h : e.Proper) (peer : Address) : (e.drop peer).Proper :=
  ⟨h.valid, fun entry hm => h.tracksData entry ((List.mem_filter.mp hm).1)⟩

theorem Proper.with_traffic (h : e.Proper) (traffic : Traffic) : { e with traffic }.Proper :=
  ⟨h.valid, h.tracksData⟩

theorem Proper.find? (h : e.Proper) {peer : Address} {engine : Engine}
    (hf : e.connections.find? peer = some engine) : engine.TracksData := by
  obtain ⟨front, back, heq, -⟩ := List.lookup_eq_some_iff.mp hf
  exact h.tracksData (peer, engine) (heq ▸ List.mem_append_right _ List.mem_cons_self)

theorem Proper.engineFor (h : e.Proper) {peer : Address} {engine : Engine}
    (hfor : e.engineFor peer = .ok engine) : engine.TracksData := by
  rw [EndPoint.engineFor] at hfor
  split at hfor
  · next found hf =>
      cases hfor
      exact h.find? hf
  · exact Engine.tracksData_new hfor

theorem not_mem_dispatches {source target : Address} {released : List Packet} {p : Packet} :
    .transmit target p ∉ dispatches source released := by
  intro hm
  obtain ⟨q, -, heq⟩ := List.mem_map.mp hm
  cases heq

/-! ### Calls of the application -/

theorem Proper.connect (h : e.Proper) (peer : Address) : (e.connect peer).Orderly fins := by
  unfold EndPoint.connect
  split
  · exact h.orderly _
  · next engine hnew =>
      refine ⟨h.setEngine peer (Engine.tracksData_new hnew), fun target p hm hk => ?_⟩
      cases List.mem_singleton.mp hm
      cases hk

theorem Proper.send (h : e.Proper) (peer : Address) (payload : Bytes) (now : Instant) :
    (e.send peer payload now).Orderly fins := by
  unfold EndPoint.send
  split
  · exact h.orderly _
  · split
    · exact h.orderly _
    · next engine hfor =>
        have hsend := (h.engineFor hfor).sendData payload now
        split
        · next heq =>
            rw [heq] at hsend
            exact (h.setEngine peer hsend.1).orderly _
        · next heq =>
            rw [heq] at hsend
            refine ⟨h.setEngine peer hsend.1, fun target p hm hk => ?_⟩
            cases List.mem_singleton.mp hm
            rw [hsend.2 _ rfl] at hk
            cases hk

theorem Proper.close (h : e.Proper) {peer : Address}
    (hfin : ∀ engine p, e.connections.find? peer = some engine → p.hasFlag .ack = false →
      fins peer p) : (e.close peer).Orderly fins := by
  unfold EndPoint.close
  split
  · exact h.orderly _
  · next engine hf =>
      refine ⟨h.drop peer, fun target p hm hk => ?_⟩
      cases List.mem_singleton.mp hm
      exact hfin engine _ hf (Packet.hasFlag_fin _)

/-! ### Received packets -/

theorem Proper.onData (h : e.Proper) (source : Address) (p : Packet) :
    (e.onData source p).Orderly fins := by
  unfold EndPoint.onData
  split
  · exact h.orderly _
  · next engine hfor =>
      have hreceive := (h.engineFor hfor).receive p
      split
      · next heq =>
          rw [heq] at hreceive
          exact (h.setEngine source hreceive).orderly _
      · next heq =>
          rw [heq] at hreceive
          refine ⟨h.setEngine source hreceive, fun target q hm hk => ?_⟩
          rcases List.mem_cons.mp hm with heq | hm
          · cases heq
            cases hk
          · exact absurd hm not_mem_dispatches

theorem Proper.onAck (h : e.Proper) (source : Address) (p : Packet) (now : Instant) :
    (e.onAck source p now).Orderly fins := by
  unfold EndPoint.onAck
  split
  · exact h.orderly _
  · next engine hf => exact (h.setEngine source ((h.find? hf).handleAck p now)).orderly _

theorem not_fin_of_mem_synReply {source target : Address} {p q : Packet}
    (hm : .transmit target q ∈ synReply source p) : q.kind ≠ .fin := by
  unfold synReply at hm
  split at hm
  · cases hm
  · cases List.mem_singleton.mp hm
    exact PacketKind.noConfusion

theorem Proper.onSyn (h : e.Proper) (source : Address) (p : Packet) :
    (e.onSyn source p).Orderly fins := by
  unfold EndPoint.onSyn
  split
  · exact h.orderly _
  · next engine hstart =>
      have hengine : engine.TracksData := by
        split at hstart
        · exact h.engineFor hstart
        · exact Engine.tracksData_new hstart
      have hreceive := hengine.receive p
      split
      · next heq =>
          rw [heq] at hreceive
          exact ⟨h.setEngine source hreceive,
            fun target q hm hk => absurd hk (not_fin_of_mem_synReply hm)⟩
      · next heq =>
          rw [heq] at hreceive
          refine ⟨h.setEngine source hreceive, fun target q hm hk => ?_⟩
          rcases List.mem_append.mp hm with hm | hm
          · exact absurd hm not_mem_dispatches
          · exact absurd hk (not_fin_of_mem_synReply hm)

/-- A FIN is answered unless it is an answer itself. -/
theorem Proper.onFin (h : e.Proper) {source : Address} {q : Packet}
    (hfin : ∀ p, q.hasFlag .ack = false → p.hasFlag .ack = true → fins source p) :
    (e.onFin source q).Orderly fins := by
  refine ⟨h.drop source, fun target p hm hk => ?_⟩
  simp only [EndPoint.onFin, finReply] at hm
  split at hm
  · cases hm
  · next hack =>
      cases List.mem_singleton.mp hm
      exact hfin _ (Bool.eq_false_iff.mpr hack) (Packet.hasFlag_finAck _ _)

theorem Proper.onDatagram (h : e.Proper) {source : Address} {bytes : Bytes} (now : Instant)
    (hfin : ∀ p q, Packet.decode bytes = .ok q → q.kind = .fin → q.hasFlag .ack = false →
      p.hasFlag .ack = true → fins source p) : (e.onDatagram source bytes now).Orderly fins := by
  simp only [EndPoint.onDatagram]
  have hcounted := h.with_traffic (e.traffic.countIn bytes.length)
  split
  · exact (hcounted.with_traffic _).orderly _
  · next q hdecode =>
      unfold onPacket
      split
      · exact hcounted.onData source q
      · exact hcounted.onAck source q now
      · exact hcounted.onSyn source q
      · next hk => exact hcounted.onFin fun p hq hp => hfin p q hdecode hk hq hp
      · exact (hcounted.drop source).orderly _

/-! ### Any input -/

theorem Proper.scan (h : e.Proper) (now : Instant) : (e.scan now).Orderly fins := by
  refine ⟨⟨h.valid, fun entry hm => ?_⟩, fun target p hm hk => ?_⟩
  · simp only [EndPoint.scan, List.map_map] at hm
    obtain ⟨old, hold, rfl⟩ := List.mem_map.mp hm
    exact ((h.tracksData old hold).timedOut now).1
  · simp only [EndPoint.scan, List.flatMap_map] at hm
    obtain ⟨old, hold, hm⟩ := List.mem_flatMap.mp hm
    obtain ⟨q, hq, heq⟩ := List.mem_map.mp hm
    cases heq
    rw [((h.tracksData old hold).timedOut now).2 p hq] at hk
    cases hk

/-- No other input makes an end point send a FIN. -/
theorem Proper.step (h : e.Proper) (now : Instant) (input : Input) :
    (e.step now input).Orderly fun target p => e.Ends target input p := by
  cases input with
  | connect peer => exact h.connect peer
  | send peer payload => exact h.send peer payload now
  | close peer => exact h.close fun _ _ hf hp => .close hf hp
  | datagram source bytes => exact h.onDatagram now fun _ _ hd hk hq hp => .reply hd hk hq hp
  | scan => exact h.scan now

end Proper

end EndPoint

end ReliableDatagram
