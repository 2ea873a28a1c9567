/-
An end point that talks to one peer.

Such an end point keeps one connection at most.  Its state is that of a locked
engine, whichever kind it runs; before the first packet there is no engine
yet, and the state is the start.  Every input then amounts to one operation
of the engine, and the effects say what came of it.  Only settings whose engine
cannot be had make a difference: the end point refuses whatever needs one.

`Keeps` is the relation.  It allows for both cases of the connection table: there
is an engine for the peer, and it follows the locked one; or there is none, and
the locked one is at its start.  An acknowledgement that finds no connection is
dropped, and an engine at its start would drop it too, since it has nothing in
flight; so the second case need not be told apart afterwards.

Each lemma about an input has two outcomes, with what is refused first.  A refusal
leaves the relation as it is and has no effects.  Otherwise the answer, the
effects and the locked engine afterwards are given, and the relation holds again.
The inputs of the application have a lemma each; received packets are one
relation, `Reacts`, with a constructor for each thing that can come of one, for
the network only has to know that some such reaction took place.

FINs are left out.  They drop the connection, and nothing that is proved of two
nodes here lets one be closed.
-/
import ReliableDatagram.EndPoint.Basic
import ReliableDatagram.Proofs.Engine.Equivalence

namespace ReliableDatagram

/-- Whether an engine for these settings can be had. -/
def EndPointConfig.Builds (c : EndPointConfig) : Prop :=
  ∃ engine, Engine.new c.engineKind c.reliability = .ok engine

/-- What the checks of an end point's settings leave. -/
theorem EndPointConfig.Valid.checks {c : EndPointConfig} (h : c.Valid) :
    0 < c.scanInterval.nanos ∧ 0 < c.statsInterval.nanos ∧ maxPacketSize ≤ c.receiveLength ∧
      c.reliability.Valid := by
  simp only [EndPointConfig.Valid, EndPointConfig.defect?, Reliability.ite_some_eq_none] at h
  obtain ⟨hscan, hstats, hlength, hreliability⟩ := h
  exact ⟨Nat.pos_of_ne_zero hscan, Nat.pos_of_ne_zero hstats, Nat.le_of_not_lt hlength,
    hreliability⟩

/-! ## Effects -/

namespace Effect

/-- The peer that an effect is about. -/
def peer : Effect → Address
  | transmit target _ => target
  | dispatch source _ => source

def packet? : Effect → Option Packet
  | transmit _ p => some p
  | dispatch _ _ => none

def payload? : Effect → Option Bytes
  | transmit _ _ => none
  | dispatch _ payload => some payload

end Effect

/-- What becomes of an engine that an intact packet reaches, with the packets that are sent in
reply and those that are released. -/
inductive LockedEngine.Reacts (config : Reliability) (e : LockedEngine) (now : Instant)
    (p : Packet) : LockedEngine → List Packet → List Packet → Prop
  | take {released : List Packet} {l : LockedEngine} :
      p.kind = .data → e.receive p = (.ok released, l) →
      Reacts config e now p l [.acknowledge p.seq.next] released
  | refuse {error : EngineError} {l : LockedEngine} :
      p.kind = .data → e.receive p = (.error error, l) → Reacts config e now p l [] []
  | ack : p.kind = .ack → Reacts config e now p (e.handleAck p now).2 [] []
  | syn {released : List Packet} {l : LockedEngine} :
      p.kind = .syn → p.hasFlag .ack = false →
      (LockedEngine.start config).receive p = (.ok released, l) →
      Reacts config e now p l [.synAck .zero p.seq.next] released
  | synAck {released : List Packet} {l : LockedEngine} :
      p.kind = .syn → p.hasFlag .ack = true → e.receive p = (.ok released, l) →
      Reacts config e now p l [] released

namespace EndPoint

theorem peer_of_mem_dispatches {source : Address} {released : List Packet} {effect : Effect}
    (h : effect ∈ dispatches source released) : effect.peer = source := by
  obtain ⟨p, -, rfl⟩ := List.mem_map.mp h
  rfl

@[simp] theorem packets_dispatches (source : Address) (released : List Packet) :
    (dispatches source released).filterMap Effect.packet? = [] := by
  rw [dispatches, List.filterMap_map]
  exact List.filterMap_eq_nil_iff.mpr fun _ _ => rfl

@[simp] theorem payloads_dispatches (source : Address) (released : List Packet) :
    (dispatches source released).filterMap Effect.payload? = released.map (·.payload) := by
  rw [dispatches, List.filterMap_map]
  exact congrFun List.filterMap_eq_map released

/-- An end point with at most the connection to one peer, in the state of `l`. -/
structure Keeps (e : EndPoint) (config : EndPointConfig) (peer : Address) (l : LockedEngine) :
    Prop where
  config_eq : e.config = config
  connection : (e.connections.entries = [] ∧ l = .start config.reliability) ∨
    ∃ engine, e.connections.entries = [(peer, engine)] ∧ engine.Follows l ∧ config.Builds

section Keeps

variable {e : EndPoint} {config : EndPointConfig} {peer : Address} {l : LockedEngine}

theorem keeps_new (config : EndPointConfig) (peer : Address) (traffic : Traffic) :
    Keeps ⟨config, .empty, traffic⟩ config peer (.start config.reliability) :=
  ⟨rfl, .inl ⟨rfl, rfl⟩⟩

theorem Keeps.with_traffic (h : e.Keeps config peer l) (traffic : Traffic) :
    Keeps { e with traffic } config peer l :=
  ⟨h.config_eq, h.connection⟩

/-! ## Engines -/

theorem Keeps.newEngine (h : e.Keeps config peer l) :
    (∃ error, e.newEngine = .error error ∧ ¬ config.Builds) ∨
      ∃ engine, e.newEngine = .ok engine ∧ engine.Follows (.start config.reliability) ∧
        config.Builds := by
  rw [EndPoint.newEngine, h.config_eq]
  cases hnew : Engine.new config.engineKind config.reliability with
  | error error =>
      refine .inl ⟨error, rfl, ?_⟩
      rintro ⟨engine, hok⟩
      rw [hnew] at hok
      cases hok
  | ok engine => exact .inr ⟨engine, rfl, (Engine.follows_start hnew).2, engine, hnew⟩

theorem Keeps.engineFor (h : e.Keeps config peer l) :
    (∃ error, e.engineFor peer = .error error ∧ ¬ config.Builds) ∨
      ∃ engine, e.engineFor peer = .ok engine ∧ engine.Follows l ∧ config.Builds := by
  rcases h.connection with ⟨hnil, rfl⟩ | ⟨engine, hone, hf, hb⟩
  · have hnone : e.connections.find? peer = none := by rw [Connections.find?, hnil]; rfl
    rw [EndPoint.engineFor, hnone]
    exact h.newEngine
  · have hsome : e.connections.find? peer = some engine := by
      rw [Connections.find?, hone, Assoc.lookup_cons_eq_ite, if_pos rfl]
    rw [EndPoint.engineFor, hsome]
    exact .inr ⟨engine, rfl, hf, hb⟩

theorem Keeps.setEngine (h : e.Keeps config peer l) {engine : Engine} {l' : LockedEngine}
    (hf : engine.Follows l') (hb : config.Builds) :
    (e.setEngine peer engine).Keeps config peer l' := by
  refine ⟨h.config_eq, .inr ⟨engine, ?_, hf, hb⟩⟩
  rcases h.connection with ⟨hnil, -⟩ | ⟨old, hone, -, -⟩
  · simp [EndPoint.setEngine, Connections.insert, hnil, Assoc.insert]
  · simp [EndPoint.setEngine, Connections.insert, hone, Assoc.insert]

/-! ## Calls of the application -/

theorem Keeps.connect (h : e.Keeps config peer l) :
    (¬ config.Builds ∧ ∃ error, e.connect peer = ⟨.refused error, e, []⟩) ∨
      ∃ e', e.connect peer = ⟨.done, e', [.transmit peer (.syn .zero)]⟩ ∧
        e'.Keeps config peer (.start config.reliability) := by
  rcases h.newEngine with ⟨error, herr, hb⟩ | ⟨engine, hok, hf, hb⟩
  · exact .inl ⟨hb, .start error, by simp only [EndPoint.connect, herr]⟩
  · refine .inr ⟨e.setEngine peer engine, ?_, h.setEngine hf hb⟩
    simp only [EndPoint.connect, hok]

/-- A payload is refused without a trace, or numbered and sent.  It is refused for its length,
for want of an engine, or by the engine. -/
theorem Keeps.send (h : e.Keeps config peer l) (payload : Bytes) (now : Instant) :
    (∃ error e', e.send peer payload now = ⟨.refused error, e', []⟩ ∧ e'.Keeps config peer l ∧
        (payload.length ≤ maxPayload → config.Builds →
          l.sendData payload now = (.error l.windowFull, l))) ∨
      ∃ p l' e', payload.length ≤ maxPayload ∧ config.Builds ∧
        l.sendData payload now = (.ok p, l') ∧
        e.send peer payload now = ⟨.numbered p.seq, e', [.transmit peer p]⟩ ∧
        e'.Keeps config peer l' := by
  by_cases hlen : maxPayload < payload.length
  · exact .inl ⟨_, e, by rw [EndPoint.send, if_pos hlen], h,
      fun hle => absurd hlen (Nat.not_lt.mpr hle)⟩
  · rcases h.engineFor with ⟨error, herr, hb⟩ | ⟨engine, hok, hf, hb⟩
    · refine .inl ⟨.start error, e, ?_, h, fun _ hbuilds => absurd hbuilds hb⟩
      simp only [EndPoint.send, if_neg hlen, herr]
    · obtain ⟨hans, hnext⟩ := hf.sendData payload now
      cases hsend : l.sendData payload now with
      | mk answer l' =>
          rw [hsend] at hans hnext
          have hkeep := h.setEngine hnext hb
          have heq : engine.sendData payload now =
            (answer, (engine.sendData payload now).2) := Prod.ext hans rfl
          cases answer with
          | error error =>
              have hsame : l.sendData payload now = (.error l.windowFull, l) := by
                refine (LockedEngine.sendData_cases l payload now).resolve_right ?_
                rintro ⟨hfull, hv⟩
                rw [LockedEngine.sendData_of_isVacant hfull hv] at hsend
                cases hsend
              cases hsend.symm.trans hsame
              refine .inl ⟨.engine l.windowFull, e.setEngine peer (engine.sendData payload now).2,
                ?_, hkeep, fun _ _ => rfl⟩
              simp only [EndPoint.send, if_neg hlen, hok]
              rw [heq]
          | ok p =>
              refine .inr ⟨p, l', e.setEngine peer (engine.sendData payload now).2,
                Nat.le_of_not_lt hlen, hb, rfl, ?_, hkeep⟩
              simp only [EndPoint.send, if_neg hlen, hok]
              rw [heq]

/-! ## Received packets -/

theorem Keeps.onData (h : e.Keeps config peer l) (p : Packet) :
    (¬ config.Builds ∧ ∃ error, e.onData peer p = ⟨.refused (.start error), e, []⟩) ∨
      (config.Builds ∧ ∃ error l' e', l.receive p = (.error error, l') ∧
        e.onData peer p = ⟨.done, e', []⟩ ∧ e'.Keeps config peer l') ∨
      (config.Builds ∧ ∃ released l' e', l.receive p = (.ok released, l') ∧
        e.onData peer p = ⟨.done, e',
          .transmit peer (.acknowledge p.seq.next) :: dispatches peer released⟩ ∧
        e'.Keeps config peer l') := by
  rcases h.engineFor with ⟨error, herr, hb⟩ | ⟨engine, hok, hf, hb⟩
  · exact .inl ⟨hb, error, by simp only [EndPoint.onData, herr]⟩
  · obtain ⟨hans, hnext⟩ := hf.receive p
    cases hrec : l.receive p with
    | mk answer l' =>
        rw [hrec] at hans hnext
        have hkeep := h.setEngine hnext hb
        have heq : engine.receive p = (answer, (engine.receive p).2) := Prod.ext hans rfl
        cases answer with
        | error error =>
            refine .inr (.inl ⟨hb, error, l', e.setEngine peer (engine.receive p).2, rfl, ?_,
              hkeep⟩)
            simp only [EndPoint.onData, hok]
            rw [heq]
        | ok released =>
            refine .inr (.inr ⟨hb, released, l', e.setEngine peer (engine.receive p).2, rfl, ?_,
              hkeep⟩)
            simp only [EndPoint.onData, hok]
            rw [heq]

theorem handleAck_start (c : Reliability) (p : Packet) (now : Instant) :
    ((LockedEngine.start c).handleAck p now).2 = .start c := by
  rcases LockedEngine.handleAck_cases (.start c) p now with ⟨answer, heq, -⟩ | ⟨u, -, hf, -⟩
  · rw [heq]
  · cases hf

theorem Keeps.onAck (h : e.Keeps config peer l) (p : Packet) (now : Instant) :
    ∃ e', e.onAck peer p now = ⟨.done, e', []⟩ ∧ e'.Keeps config peer (l.handleAck p now).2 := by
  rcases h.connection with ⟨hnil, rfl⟩ | ⟨engine, hone, hf, hb⟩
  · refine ⟨e, ?_, by rwa [handleAck_start]⟩
    rw [EndPoint.onAck, Connections.find?, hnil]
    rfl
  · refine ⟨e.setEngine peer (engine.handleAck p now).2, ?_,
      h.setEngine (hf.handleAck p now).2 hb⟩
    simp only [EndPoint.onAck, Connections.find?, hone, Assoc.lookup_cons_eq_ite, if_true]

theorem receive_syn (l : LockedEngine) {p : Packet} (hk : p.kind = .syn) :
    ∃ released l', l.receive p = (.ok released, l') := by
  rw [LockedEngine.receive, hk]
  exact ⟨_, _, rfl⟩

/-- What becomes of a SYN, given the engine that it goes to. -/
theorem Keeps.onSyn_of_engine (h : e.Keeps config peer l) {p : Packet} (hk : p.kind = .syn)
    {engine : Engine} {l₀ : LockedEngine}
    (hengine : (if p.hasFlag .ack then e.engineFor peer else e.newEngine) = .ok engine)
    (hf : engine.Follows l₀) (hb : config.Builds) :
    ∃ released l' e', l₀.receive p = (.ok released, l') ∧
      e.onSyn peer p = ⟨.done, e', dispatches peer released ++ synReply peer p⟩ ∧
      e'.Keeps config peer l' := by
  obtain ⟨hans, hnext⟩ := hf.receive p
  obtain ⟨released, l', hrec⟩ := receive_syn l₀ hk
  rw [hrec] at hans hnext
  have heq : engine.receive p = (.ok released, (engine.receive p).2) := Prod.ext hans rfl
  refine ⟨released, l', e.setEngine peer (engine.receive p).2, hrec, ?_, h.setEngine hnext hb⟩
  simp only [EndPoint.onSyn, hengine]
  rw [heq]

theorem Keeps.onSyn (h : e.Keeps config peer l) {p : Packet} (hk : p.kind = .syn)
    (ha : p.hasFlag .ack = false) :
    (¬ config.Builds ∧ ∃ error, e.onSyn peer p = ⟨.refused (.start error), e, []⟩) ∨
      ∃ released l' e', (LockedEngine.start config.reliability).receive p = (.ok released, l') ∧
        e.onSyn peer p = ⟨.done, e',
          dispatches peer released ++ [.transmit peer (.synAck .zero p.seq.next)]⟩ ∧
        e'.Keeps config peer l' := by
  have hreply : synReply peer p = [.transmit peer (.synAck .zero p.seq.next)] := by
    simp [synReply, ha]
  rcases h.newEngine with ⟨error, herr, hb⟩ | ⟨engine, hok, hf, hb⟩
  · refine .inl ⟨hb, error, ?_⟩
    simp only [EndPoint.onSyn, ha, Bool.false_eq_true, if_false, herr]
  · rw [← hreply]
    exact .inr (h.onSyn_of_engine hk (by simpa [ha] using hok) hf hb)

theorem Keeps.onSynAck (h : e.Keeps config peer l) {p : Packet} (hk : p.kind = .syn)
    (ha : p.hasFlag .ack = true) :
    (¬ config.Builds ∧ ∃ error, e.onSyn peer p = ⟨.refused (.start error), e, []⟩) ∨
      ∃ released l' e', l.receive p = (.ok released, l') ∧
        e.onSyn peer p = ⟨.done, e', dispatches peer released⟩ ∧ e'.Keeps config peer l' := by
  have hreply : synReply peer p = [] := by simp [synReply, ha]
  rcases h.engineFor with ⟨error, herr, hb⟩ | ⟨engine, hok, hf, hb⟩
  · refine .inl ⟨hb, error, ?_⟩
    simp only [EndPoint.onSyn, ha, if_true, herr]
  · obtain ⟨released, l', e', hrec, heq, hkeep⟩ :=
      h.onSyn_of_engine hk (by simpa [ha] using hok) hf hb
    rw [hreply, List.append_nil] at heq
    exact .inr ⟨released, l', e', hrec, heq, hkeep⟩

/-- Any packet but a FIN or RST is refused for want of an engine, or the engine reacts to it. -/
theorem Keeps.onPacket (h : e.Keeps config peer l) {p : Packet}
    (hk : p.kind = .data ∨ p.kind = .ack ∨ p.kind = .syn) (now : Instant) :
    (¬ config.Builds ∧ ∃ error, e.onPacket peer p now = ⟨.refused (.start error), e, []⟩) ∨
      ∃ l' packets released e' effects,
        LockedEngine.Reacts config.reliability l now p l' packets released ∧
        e.onPacket peer p now = ⟨.done, e', effects⟩ ∧ e'.Keeps config peer l' ∧
        (∀ effect ∈ effects, effect.peer = peer) ∧ effects.filterMap Effect.packet? = packets ∧
        effects.filterMap Effect.payload? = released.map (·.payload) ∧
        (p.kind = .data → config.Builds) := by
  rcases hk with hk | hk | hk
  · have hon : e.onPacket peer p now = e.onData peer p := by rw [EndPoint.onPacket, hk]
    rw [hon]
    rcases h.onData p with hno | ⟨hb, error, l', e', hrec, heq, hkeep⟩ |
      ⟨hb, released, l', e', hrec, heq, hkeep⟩
    · exact .inl hno
    · exact .inr ⟨l', _, _, e', _, .refuse hk hrec, heq, hkeep, (fun _ he => nomatch he), rfl, rfl,
        fun _ => hb⟩
    · refine .inr ⟨l', _, _, e', _, .take hk hrec, heq, hkeep, fun effect he => ?_, ?_, ?_,
        fun _ => hb⟩
      · rcases List.mem_cons.mp he with rfl | he
        · rfl
        · exact peer_of_mem_dispatches he
      · exact congrArg (List.cons _) (packets_dispatches peer released)
      · exact payloads_dispatches peer released
  · have hon : e.onPacket peer p now = e.onAck peer p now := by rw [EndPoint.onPacket, hk]
    rw [hon]
    obtain ⟨e', heq, hkeep⟩ := h.onAck p now
    refine .inr ⟨_, _, _, e', _, .ack hk, heq, hkeep, (fun _ he => nomatch he), rfl, rfl, ?_⟩
    rw [hk]
    exact nofun
  · have hon : e.onPacket peer p now = e.onSyn peer p := by rw [EndPoint.onPacket, hk]
    rw [hon]
    cases ha : p.hasFlag .ack with
    | false =>
        rcases h.onSyn hk ha with hno | ⟨released, l', e', hrec, heq, hkeep⟩
        · exact .inl hno
        · refine .inr ⟨l', _, _, e', _, .syn hk ha hrec, heq, hkeep, fun effect he => ?_, ?_, ?_,
            ?_⟩
          · rcases List.mem_append.mp he with he | he
            · exact peer_of_mem_dispatches he
            · rw [List.mem_singleton.mp he]
              rfl
          · simp [Effect.packet?]
          · simp [Effect.payload?]
          · rw [hk]
            exact nofun
    | true =>
        rcases h.onSynAck hk ha with hno | ⟨released, l', e', hrec, heq, hkeep⟩
        · exact .inl hno
        · refine .inr ⟨l', _, _, e', _, .synAck hk ha hrec, heq, hkeep, fun effect he => ?_, ?_, ?_,
            ?_⟩
          · exact peer_of_mem_dispatches he
          · exact packets_dispatches peer released
          · exact payloads_dispatches peer released
          · rw [hk]
            exact nofun

/-! ## Scanning -/

theorem Keeps.scan (h : e.Keeps config peer l) (now : Instant) :
    ∃ e', e.scan now = ⟨.done, e', (l.timedOut now).1.map (.transmit peer)⟩ ∧
      e'.Keeps config peer (l.timedOut now).2 := by
  rcases h.connection with ⟨hnil, rfl⟩ | ⟨engine, hone, hf, hb⟩
  · refine ⟨{ e with connections := ⟨[]⟩ }, ?_, h.config_eq, .inl ⟨rfl, rfl⟩⟩
    simp only [EndPoint.scan, hnil]
    rfl
  · obtain ⟨hans, hnext⟩ := hf.timedOut now
    refine ⟨{ e with connections := ⟨[(peer, (engine.timedOut now).2)]⟩ }, ?_, h.config_eq,
      .inr ⟨_, rfl, hnext, hb⟩⟩
    simp only [EndPoint.scan, hone, List.map_cons, List.map_nil, List.flatMap_cons,
      List.flatMap_nil, List.append_nil, scanEntry, hans]

end Keeps

end EndPoint

end ReliableDatagram
