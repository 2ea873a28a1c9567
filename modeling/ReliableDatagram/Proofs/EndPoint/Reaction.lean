/-
What an end point does about one peer.

Every input but a scan names a peer.  What comes of it depends on the
settings and on the connection to that peer only: the answer, the effects,
which are all about the peer, and what becomes of the connection.  All other
connections stay as they are.  A scan treats each connection by itself.

A `Reaction` holds these three parts, and `Reacts` says of a handler that there is
a reaction for the given settings and connection which it shows in every end point
that has them.  So whatever an end point has to do with other peers is quantified
away at this place, and nothing that is built on it has to look at the connection
table again.

There is one lemma per handler.  Some handlers ask for an engine first, and make
one if the peer has none; this depends on settings and connection as well, and is
described once, by `engineOf`.

The counters of traffic are the one thing that all peers write to.  No answer and
no effect depends on them, so a reaction leaves them out, and the end point that
comes of an input is described up to its counters.

The connection table is a list in the order of addresses.  That a peer has one
entry at most follows from the order and is needed for scans only: they walk the
list, and the part of their effects that is about one peer is what its own entry
makes.
-/
import ReliableDatagram.Proofs.Assoc
import ReliableDatagram.Proofs.EndPoint.Peer

namespace ReliableDatagram

/-- The peer that an input is about; a scan is about all of them. -/
def Input.peer? : Input → Option Address
  | .connect peer | .send peer _ | .close peer | .datagram peer _ => some peer
  | .scan => none

inductive Change where
  | keep
  | set (engine : Engine)
  | drop

namespace Change

def result : Change → Option Engine → Option Engine
  | keep, connection => connection
  | set engine, _ => some engine
  | drop, _ => none

/-- The connections of an end point afterwards. -/
def apply (peer : Address) (connections : Connections) : Change → Connections
  | keep => connections
  | set engine => connections.insert peer engine
  | drop => connections.erase peer

variable {peer other : Address} {connections : Connections}

theorem find?_apply_self (change : Change) :
    (change.apply peer connections).find? peer = change.result (connections.find? peer) := by
  cases change with
  | keep => rfl
  | set engine => exact Connections.find?_insert_self _ _ _
  | drop => exact Connections.find?_erase_self _ _

theorem find?_apply_of_ne (change : Change) (h : other ≠ peer) :
    (change.apply peer connections).find? other = connections.find? other := by
  cases change with
  | keep => rfl
  | set engine => exact Connections.find?_insert_of_ne h _
  | drop => exact Connections.find?_erase_of_ne h

end Change

/-- What an end point does about a peer. -/
structure Reaction where
  answer : Answer
  change : Change
  effects : List Effect

/-- An outcome that is this reaction, whatever was counted. -/
structure Outcome.Is (o : Outcome) (e : EndPoint) (peer : Address) (r : Reaction) : Prop where
  answer : o.answer = r.answer
  effects : o.effects = r.effects
  config : o.endPoint.config = e.config
  connections : o.endPoint.connections = r.change.apply peer e.connections

/-- End points with these settings and this connection to a peer all react alike, with effects
about that peer. -/
def Reacts (peer : Address) (config : EndPointConfig) (connection : Option Engine)
    (f : EndPoint → Outcome) : Prop :=
  ∃ r : Reaction, (∀ effect ∈ r.effects, effect.peer = peer) ∧
    ∀ e : EndPoint, e.config = config → e.connections.find? peer = connection → (f e).Is e peer r

namespace EndPoint

section Reacts

variable {peer : Address} {config : EndPointConfig} {connection : Option Engine}

theorem reacts_silently {f : EndPoint → Outcome} (answer : Answer) (change : Change)
    (h : ∀ e : EndPoint, e.config = config → e.connections.find? peer = connection →
      (f e).Is e peer ⟨answer, change, []⟩) : Reacts peer config connection f :=
  ⟨_, List.forall_mem_nil _, h⟩

/-- The engine for a peer depends on its connection only. -/
def engineOf (config : EndPointConfig) : Option Engine → Except StartError Engine
  | some engine => .ok engine
  | none => Engine.new config.engineKind config.reliability

theorem engineFor_eq {e : EndPoint} (hc : e.config = config)
    (hf : e.connections.find? peer = connection) :
    e.engineFor peer = engineOf config connection := by
  rw [engineFor, hf, newEngine, hc]
  cases connection with
  | none => rfl
  | some engine => rfl

theorem newEngine_eq {e : EndPoint} (hc : e.config = config) :
    e.newEngine = Engine.new config.engineKind config.reliability := by
  rw [newEngine, hc]

/-! ## Calls of the application -/

theorem reacts_connect : Reacts peer config connection fun e => e.connect peer := by
  cases hnew : Engine.new config.engineKind config.reliability with
  | error error =>
      refine reacts_silently (.refused (.start error)) .keep fun e hc hf => ?_
      simp only [connect, newEngine_eq hc, hnew]
      exact ⟨rfl, rfl, rfl, rfl⟩
  | ok engine =>
      refine ⟨⟨.done, .set engine, [.transmit peer (.syn .zero)]⟩, ?_, fun e hc hf => ?_⟩
      · simp [Effect.peer]
      · simp only [connect, newEngine_eq hc, hnew]
        exact ⟨rfl, rfl, rfl, rfl⟩

theorem reacts_send (payload : Bytes) (now : Instant) :
    Reacts peer config connection fun e => e.send peer payload now := by
  by_cases hlen : maxPayload < payload.length
  · refine reacts_silently (.refused (.payloadTooLong payload.length)) .keep fun e hc hf => ?_
    simp only [send, if_pos hlen]
    exact ⟨rfl, rfl, rfl, rfl⟩
  · cases hengine : engineOf config connection with
    | error error =>
        refine reacts_silently (.refused (.start error)) .keep fun e hc hf => ?_
        simp only [send, if_neg hlen, engineFor_eq hc hf, hengine]
        exact ⟨rfl, rfl, rfl, rfl⟩
    | ok engine =>
        cases hsend : engine.sendData payload now with
        | mk answer engine' =>
            cases answer with
            | error error =>
                refine reacts_silently (.refused (.engine error)) (.set engine') fun e hc hf => ?_
                simp only [send, if_neg hlen, engineFor_eq hc hf, hengine, hsend]
                exact ⟨rfl, rfl, rfl, rfl⟩
            | ok p =>
                refine ⟨⟨.numbered p.seq, .set engine', [.transmit peer p]⟩, ?_, fun e hc hf => ?_⟩
                · simp [Effect.peer]
                · simp only [send, if_neg hlen, engineFor_eq hc hf, hengine, hsend]
                  exact ⟨rfl, rfl, rfl, rfl⟩

theorem reacts_close : Reacts peer config connection fun e => e.close peer := by
  cases connection with
  | none =>
      refine reacts_silently (.refused (.noConnection peer)) .keep fun e hc hf => ?_
      simp only [close, hf]
      exact ⟨rfl, rfl, rfl, rfl⟩
  | some engine =>
      refine ⟨⟨.done, .drop, [.transmit peer (.fin engine.nextNumber.1)]⟩, ?_, fun e hc hf => ?_⟩
      · simp [Effect.peer]
      · simp only [close, hf]
        exact ⟨rfl, rfl, rfl, rfl⟩

/-! ## Received packets -/

theorem reacts_onData (p : Packet) :
    Reacts peer config connection fun e => e.onData peer p := by
  cases hengine : engineOf config connection with
  | error error =>
      refine reacts_silently (.refused (.start error)) .keep fun e hc hf => ?_
      simp only [onData, engineFor_eq hc hf, hengine]
      exact ⟨rfl, rfl, rfl, rfl⟩
  | ok engine =>
      cases hreceive : engine.receive p with
      | mk answer engine' =>
          cases answer with
          | error error =>
              refine reacts_silently .done (.set engine') fun e hc hf => ?_
              simp only [onData, engineFor_eq hc hf, hengine, hreceive]
              exact ⟨rfl, rfl, rfl, rfl⟩
          | ok released =>
              refine ⟨⟨.done, .set engine',
                .transmit peer (.acknowledge p.seq.next) :: dispatches peer released⟩, ?_,
                fun e hc hf => ?_⟩
              · intro effect hm
                rcases List.mem_cons.mp hm with rfl | hm
                · rfl
                · exact peer_of_mem_dispatches hm
              · simp only [onData, engineFor_eq hc hf, hengine, hreceive]
                exact ⟨rfl, rfl, rfl, rfl⟩

theorem reacts_onAck (p : Packet) (now : Instant) :
    Reacts peer config connection fun e => e.onAck peer p now := by
  cases connection with
  | none =>
      refine reacts_silently .done .keep fun e hc hf => ?_
      simp only [onAck, hf]
      exact ⟨rfl, rfl, rfl, rfl⟩
  | some engine =>
      refine reacts_silently .done (.set (engine.handleAck p now).2) fun e hc hf => ?_
      simp only [onAck, hf]
      exact ⟨rfl, rfl, rfl, rfl⟩

theorem peer_of_mem_synReply {p : Packet} {effect : Effect} (h : effect ∈ synReply peer p) :
    effect.peer = peer := by
  rw [synReply] at h
  split at h
  · cases h
  · rw [List.mem_singleton.mp h, Effect.peer]

theorem reacts_onSyn (p : Packet) :
    Reacts peer config connection fun e => e.onSyn peer p := by
  let start := if p.hasFlag .ack then engineOf config connection
    else Engine.new config.engineKind config.reliability
  have hstart {e : EndPoint} (hc : e.config = config)
      (hf : e.connections.find? peer = connection) :
      (if p.hasFlag .ack then e.engineFor peer else e.newEngine) = start := by
    rw [engineFor_eq hc hf, newEngine_eq hc]
  cases hengine : start with
  | error error =>
      refine reacts_silently (.refused (.start error)) .keep fun e hc hf => ?_
      simp only [onSyn, hstart hc hf, hengine]
      exact ⟨rfl, rfl, rfl, rfl⟩
  | ok engine =>
      cases hreceive : engine.receive p with
      | mk answer engine' =>
          cases answer with
          | error error =>
              refine ⟨⟨.done, .set engine', synReply peer p⟩, fun _ => peer_of_mem_synReply,
                fun e hc hf => ?_⟩
              simp only [onSyn, hstart hc hf, hengine, hreceive]
              exact ⟨rfl, rfl, rfl, rfl⟩
          | ok released =>
              refine ⟨⟨.done, .set engine', dispatches peer released ++ synReply peer p⟩, ?_,
                fun e hc hf => ?_⟩
              · intro effect hm
                rcases List.mem_append.mp hm with hm | hm
                · exact peer_of_mem_dispatches hm
                · exact peer_of_mem_synReply hm
              · simp only [onSyn, hstart hc hf, hengine, hreceive]
                exact ⟨rfl, rfl, rfl, rfl⟩

theorem reacts_onFin (p : Packet) :
    Reacts peer config connection fun e => e.onFin peer p := by
  refine ⟨⟨.done, .drop, finReply peer p⟩, ?_, fun e hc hf => ⟨rfl, rfl, rfl, rfl⟩⟩
  intro effect hm
  simp only [finReply] at hm
  split at hm
  · cases hm
  · rw [List.mem_singleton.mp hm, Effect.peer]

theorem reacts_onPacket (p : Packet) (now : Instant) :
    Reacts peer config connection fun e => e.onPacket peer p now := by
  simp only [onPacket]
  cases p.kind with
  | data => exact reacts_onData p
  | ack => exact reacts_onAck p now
  | syn => exact reacts_onSyn p
  | fin => exact reacts_onFin p
  | rst => exact reacts_silently .done .drop fun e hc hf => ⟨rfl, rfl, rfl, rfl⟩

theorem reacts_onDatagram (bytes : Bytes) (now : Instant) :
    Reacts peer config connection fun e => e.onDatagram peer bytes now := by
  cases hdecode : Packet.decode bytes with
  | error error =>
      refine reacts_silently .done .keep fun e hc hf => ?_
      simp only [onDatagram, hdecode]
      exact ⟨rfl, rfl, rfl, rfl⟩
  | ok p =>
      obtain ⟨r, heffects, hr⟩ : Reacts peer config connection fun e => e.onPacket peer p now :=
        reacts_onPacket p now
      refine ⟨r, heffects, fun e hc hf => ?_⟩
      simp only [onDatagram, hdecode]
      have his := hr { e with traffic := e.traffic.countIn bytes.length } hc hf
      exact ⟨his.answer, his.effects, his.config, his.connections⟩

theorem reacts_step {input : Input} (h : input.peer? = some peer) (now : Instant) :
    Reacts peer config connection fun e => e.step now input := by
  cases input with
  | connect => cases h; exact reacts_connect
  | send _ payload => cases h; exact reacts_send payload now
  | close => cases h; exact reacts_close
  | datagram _ bytes => cases h; exact reacts_onDatagram bytes now
  | scan => cases h

end Reacts

theorem config_step (e : EndPoint) (now : Instant) (input : Input) :
    (e.step now input).endPoint.config = e.config := by
  cases hpeer : input.peer? with
  | none =>
      cases input with
      | scan => rfl
      | _ => cases hpeer
  | some peer =>
      obtain ⟨r, -, hr⟩ := reacts_step hpeer now
      exact (hr e rfl rfl).config

/-! ## Settings that let engines be built -/

section Builds

variable {e : EndPoint}

theorem exists_engineFor (hb : e.config.Builds) (peer : Address) :
    ∃ engine, e.engineFor peer = .ok engine := by
  rw [engineFor]
  cases e.connections.find? peer with
  | none => exact hb
  | some engine => exact ⟨engine, rfl⟩

theorem answer_onPacket (hb : e.config.Builds) (source : Address) (p : Packet) (now : Instant) :
    (e.onPacket source p now).answer = .done := by
  obtain ⟨engine, hfor⟩ := exists_engineFor hb source
  obtain ⟨fresh, hnew⟩ : ∃ engine, e.newEngine = .ok engine := hb
  cases hk : p.kind with
  | data =>
      simp only [onPacket, hk, onData, hfor]
      split
      · rfl
      · rfl
  | ack =>
      simp only [onPacket, hk, onAck]
      split
      · rfl
      · rfl
  | syn =>
      simp only [onPacket, hk, onSyn, hfor, hnew]
      split
      · next error herr =>
          split at herr
          · cases herr
          · cases herr
      · split
        · rfl
        · rfl
  | fin => simp only [onPacket, hk, onFin]
  | rst => simp only [onPacket, hk, onRst]

/-- Then whatever arrives is worked off. -/
theorem answer_onDatagram (hb : e.config.Builds) (source : Address) (bytes : Bytes)
    (now : Instant) : (e.onDatagram source bytes now).answer = .done := by
  simp only [onDatagram]
  split
  · rfl
  · exact @answer_onPacket { e with traffic := e.traffic.countIn bytes.length } hb source _ now

end Builds

theorem eq_of_new {config : EndPointConfig} {e : EndPoint} (h : new config = .ok e) :
    config.Valid ∧ e = ⟨config, .empty, {}⟩ := by
  rw [new] at h
  split at h
  · cases h
  · next hdefect =>
      cases h
      exact ⟨hdefect, rfl⟩

/-- Checked settings that let none be built meet a fault. -/
theorem exists_fault {config : EndPointConfig} (h : config.Valid) (hb : ¬ config.Builds) :
    ∃ fault, Engine.new config.engineKind config.reliability = .error (.fault fault) := by
  have hvalid : config.reliability.defect? = none := h.checks.2.2.2
  cases hnew : Engine.new config.engineKind config.reliability with
  | ok engine => exact absurd ⟨engine, hnew⟩ hb
  | error error =>
      cases error with
      | fault fault => exact ⟨fault, rfl⟩
      | refused error =>
          cases hk : config.engineKind with
          | locked =>
              simp only [Engine.new, hvalid, hk] at hnew
              cases hl : LockedEngine.new config.reliability with
              | error fault =>
                  rw [hl] at hnew
                  cases hnew
              | ok l =>
                  rw [hl] at hnew
                  cases hnew
          | lockFree =>
              simp only [Engine.new, hvalid, hk] at hnew
              cases hf : LockFreeEngine.allocate config.reliability with
              | error fault =>
                  rw [hf] at hnew
                  cases hnew
              | ok f =>
                  rw [hf] at hnew
                  cases hnew

end EndPoint

/-! ## One connection per peer -/

namespace Connections

/-- No peer is listed twice, and none behind a greater one. -/
def Ordered (c : Connections) : Prop :=
  c.entries.Pairwise fun entry later => entry.1 ≠ later.1 ∧ ¬ later.1 < entry.1

variable {c : Connections}

theorem ordered_insert {entries : List (Address × Engine)} (h : Ordered ⟨entries⟩) (peer : Address)
    (engine : Engine) : Ordered ⟨Assoc.insert peer engine entries⟩ := by
  induction entries with
  | nil => exact List.pairwise_singleton _ _
  | cons head rest ih =>
      obtain ⟨hhead, hrest⟩ := List.pairwise_cons.mp h
      unfold Assoc.insert
      split
      · next heq => exact List.pairwise_cons.mpr ⟨fun entry hm => heq ▸ hhead entry hm, hrest⟩
      · next hne =>
          split
          · next hlt =>
              refine List.pairwise_cons.mpr ⟨?_, h⟩
              intro entry hm
              rcases List.mem_cons.mp hm with rfl | hm
              · exact ⟨hne, fun hback => String.lt_asymm hlt hback⟩
              · have hlater := (hhead entry hm).2
                refine ⟨fun heq => ?_, fun hback => hlater (String.lt_trans hback hlt)⟩
                rw [← heq] at hlater
                exact hlater hlt
          · next hlt =>
              refine List.pairwise_cons.mpr ⟨?_, ih hrest⟩
              intro entry hm
              rcases Assoc.mem_insert hm with rfl | hm
              · exact ⟨Ne.symm hne, hlt⟩
              · exact hhead entry hm

theorem Ordered.apply (h : c.Ordered) (peer : Address) (change : Change) :
    (change.apply peer c).Ordered := by
  cases change with
  | keep => exact h
  | set engine => exact ordered_insert h peer engine
  | drop => exact h.filter _

end Connections

namespace EndPoint

/-! ## Scans -/

/-- What is sent again over a connection. -/
def again (peer : Address) (now : Instant) : Option Engine → List Effect
  | none => []
  | some engine => (engine.timedOut now).1.map (.transmit peer)

theorem lookup_map_snd {α : Type} (f : α → α) (peer : Address) (entries : List (Address × α)) :
    (entries.map fun entry => (entry.1, f entry.2)).lookup peer = (entries.lookup peer).map f := by
  induction entries with
  | nil => rfl
  | cons entry rest ih =>
      rw [List.map_cons, Assoc.lookup_cons_eq_ite, Assoc.lookup_cons_eq_ite, ih]
      split
      · rfl
      · rfl

theorem find?_scan (e : EndPoint) (now : Instant) (peer : Address) :
    (e.scan now).endPoint.connections.find? peer =
      (e.connections.find? peer).map fun engine => (engine.timedOut now).2 := by
  show ((e.connections.entries.map (scanEntry now)).map (·.1)).lookup peer = _
  rw [List.map_map]
  exact lookup_map_snd (fun engine => (Engine.timedOut now engine).2) peer e.connections.entries

theorem ordered_scan {e : EndPoint} (h : e.connections.Ordered) (now : Instant) :
    (e.scan now).endPoint.connections.Ordered := by
  show ((e.connections.entries.map (scanEntry now)).map (·.1)).Pairwise _
  rw [List.map_map]
  exact List.Pairwise.map _ (fun _ _ hab => hab) h

theorem filter_scanEntry_self (peer : Address) (engine : Engine) (now : Instant) :
    (scanEntry now (peer, engine)).2.filter (·.peer == peer) = again peer now (some engine) := by
  show (again peer now (some engine)).filter (·.peer == peer) = _
  rw [List.filter_eq_self]
  intro effect hm
  obtain ⟨p, -, rfl⟩ := List.mem_map.mp hm
  exact beq_self_eq_true peer

theorem filter_scanEntry_of_ne {entry : Address × Engine} {peer : Address} (h : entry.1 ≠ peer)
    (now : Instant) : (scanEntry now entry).2.filter (·.peer == peer) = [] := by
  rw [List.filter_eq_nil_iff]
  intro effect hm
  obtain ⟨p, -, rfl⟩ := List.mem_map.mp hm
  exact fun heq => h (eq_of_beq heq)

/-- Of what a scan sends, a peer gets what its own connection sends again. -/
theorem filter_scan {e : EndPoint} (h : e.connections.Ordered) (now : Instant) (peer : Address) :
    (e.scan now).effects.filter (·.peer == peer) = again peer now (e.connections.find? peer) := by
  have hscan (entries : List (Address × Engine)) (ho : Connections.Ordered ⟨entries⟩) :
      ((entries.map (scanEntry now)).flatMap (·.2)).filter (·.peer == peer) =
        again peer now (entries.lookup peer) := by
    induction entries with
    | nil => rfl
    | cons entry rest ih =>
        obtain ⟨hhead, hrest⟩ := List.pairwise_cons.mp ho
        rw [List.map_cons, List.flatMap_cons, List.filter_append, ih hrest,
          Assoc.lookup_cons_eq_ite]
        obtain ⟨key, engine⟩ := entry
        split
        · next heq =>
            cases heq
            have hnone : rest.lookup key = none := by
              rw [List.lookup_eq_none_iff]
              intro later hm
              exact bne_iff_ne.mpr (hhead later hm).1
            rw [filter_scanEntry_self, hnone]
            exact List.append_nil _
        · next hne => rw [filter_scanEntry_of_ne (Ne.symm hne), List.nil_append]
  exact hscan e.connections.entries h

end EndPoint

end ReliableDatagram
