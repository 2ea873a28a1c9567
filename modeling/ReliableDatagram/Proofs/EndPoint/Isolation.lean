/-
Peers of one end point do not interfere.

A session is an end point with its receive loop, over a transport of which
only one thing is known: what it makes of a datagram may depend on all that
was about the same peer so far, and on nothing else.  Two sessions that look
alike to a peer go on so, if one of them is left out when another peer is the
subject of an input.  The only state that all peers share is the receive
loop: it ends with the first datagram for which no engine can be had.

Two sessions are `Alike` to a peer if the settings, the receive loop, the
connection to that peer and the history about it are the same.  The proof has a
lemma for each of the three cases that an input can be in, seen from a peer: it
names the peer, it names another one, or it is a scan.  An input about the peer
does the same on both sides; one about another peer leaves everything alike that
the peer can see; and a scan treats each connection by itself, so its part about
the peer is the same.  Leaving out the inputs about others then is an induction on
the list of inputs.

The second case needs that the receive loop does not end, and that is where the
settings come in.  With settings that no engine can be had for, one DATA packet of
a second peer ends the loop, and the first is not heard any more.

The last section ties sessions to nodes of a network: what a node does is a
session over a transport that reports how many bytes have arrived.

Main statement: no peer notices the others, if and only if the settings of a
running receive loop let engines be built.
-/
import ReliableDatagram.Network.Basic
import ReliableDatagram.Proofs.EndPoint.Reaction
import ReliableDatagram.Proofs.Engine.Construction
import ReliableDatagram.Proofs.Packet.RoundTrip

namespace ReliableDatagram

/-! ## What a peer notices -/

/-- What can be noticed of an end point. -/
inductive Notice where
  | answered (input : Input) (answer : Answer)
  /-- A datagram for the transport, with the bytes reported as sent unless it failed. -/
  | handed (target : Address) (bytes : Bytes) (reported : Option Nat)
  | dispatched (source : Address) (payload : Bytes)
deriving DecidableEq

def Notice.peer? : Notice → Option Address
  | answered input _ => input.peer?
  | handed target _ _ => some target
  | dispatched source _ => some source

/-- All that was noticed, with its time. -/
abbrev History := List (Instant × Notice)

def History.about (history : History) (peer : Address) : History :=
  history.filter (·.2.peer? == some peer)

/-- What a transport reports of a datagram, and nothing if it fails.  It knows the target, what
was about the target so far, the time and the bytes. -/
abbrev Transport := Address → History → Instant → Bytes → Option Nat

/-- What comes of an effect, after what was about its peer so far. -/
def Transport.notice (transport : Transport) (now : Instant) (past : History) : Effect → Notice
  | .transmit target p => .handed target p.encode (transport target past now p.encode)
  | .dispatch source payload => .dispatched source payload

/-- What effects about one peer add to what was about it. -/
def Transport.extend (transport : Transport) (now : Instant) (past : History)
    (effects : List Effect) : History :=
  effects.foldl (fun past effect => past ++ [(now, transport.notice now past effect)]) past

/-- Whether an input goes to the connection of a peer, perhaps among others. -/
def Input.concerns (input : Input) (peer : Address) : Bool := input.peer?.all (· == peer)

theorem Input.cases_of_concerns {input : Input} {peer : Address}
    (h : input.concerns peer = true) : input = .scan ∨ input.peer? = some peer := by
  rw [Input.concerns, Option.all_eq_true] at h
  cases input with
  | scan => exact .inl rfl
  | _ => exact .inr (congrArg some (eq_of_beq (h _ rfl)))

theorem Input.exists_of_not_concerns {input : Input} {peer : Address}
    (h : input.concerns peer = false) : ∃ other, input.peer? = some other ∧ peer ≠ other := by
  cases hpeer : input.peer? with
  | none =>
      simp [Input.concerns, hpeer] at h
  | some other =>
      refine ⟨other, rfl, ?_⟩
      rintro rfl
      simp [Input.concerns, hpeer] at h

namespace Node

/-- The node when a notice is counted. -/
def counted (n : Node) : Notice → Node
  | .handed _ _ (some bytes) => { n with endPoint := n.endPoint.countSent bytes }
  | .handed _ _ none => { n with endPoint := n.endPoint.countSendError }
  | _ => n

/-- An input as it reaches the end point: a datagram needs a receive loop and is cut to its
buffer. -/
def reach (n : Node) : Input → Option Input
  | .datagram source bytes =>
    if n.receiving then some (.datagram source (n.received bytes)) else none
  | input => some input

/-- The node after an input was worked off. -/
def afterInput (n : Node) (answer : Answer) : Input → Node
  | .datagram _ _ => n.afterReceive answer
  | _ => n

theorem received_encode {n : Node} (h : n.endPoint.config.Valid) (p : Packet) :
    n.received p.encode = p.encode := by
  rw [Node.received, List.take_of_length_le]
  rw [p.length_encode]
  exact Nat.le_trans p.size_le h.checks.2.2.1

theorem endPoint_afterReceive (n : Node) (answer : Answer) :
    (n.afterReceive answer).endPoint = n.endPoint := by
  unfold Node.afterReceive
  split
  · rfl
  · rfl

end Node

/-! ## Sessions -/

/-- A running end point with what was noticed of it. -/
structure Session where
  node : Node
  history : History := []

namespace Session

def start (e : EndPoint) : Session := { node := .start e true }

def connection (s : Session) (peer : Address) : Option Engine :=
  s.node.endPoint.connections.find? peer

section Steps

variable (transport : Transport)

def perform (now : Instant) (s : Session) (effect : Effect) : Session :=
  let notice := transport.notice now (s.history.about effect.peer) effect
  { node := s.node.counted notice, history := s.history ++ [(now, notice)] }

/-- Works off an input that reaches the end point. -/
def act (now : Instant) (s : Session) (input : Input) : Session :=
  let outcome := s.node.endPoint.step now input
  let s := { s with node := { s.node with endPoint := outcome.endPoint } }
  let s := outcome.effects.foldl (perform transport now) s
  { node := s.node.afterInput outcome.answer input
    history := s.history ++ [(now, .answered input outcome.answer)] }

def step (s : Session) (entry : Instant × Input) : Session :=
  match s.node.reach entry.2 with
  | none => s
  | some input => s.act transport entry.1 input

def run (s : Session) (inputs : List (Instant × Input)) : Session :=
  inputs.foldl (step transport) s

end Steps

/-- No peer notices what others do: it gets the same answers, datagrams and payloads at the same
times, and its connection is the same, without their inputs. -/
def Isolates (s : Session) : Prop :=
  ∀ (transport : Transport) (peer : Address) (inputs : List (Instant × Input)),
    let whole := s.run transport inputs
    let alone := s.run transport (inputs.filter fun entry => entry.2.concerns peer)
    whole.history.about peer = alone.history.about peer ∧
      whole.connection peer = alone.connection peer

end Session

/-! ## Effects -/

theorem History.about_append (h h' : History) (peer : Address) :
    about (h ++ h') peer = h.about peer ++ h'.about peer := List.filter_append ..

theorem History.about_singleton_of_eq {notice : Notice} {peer : Address} (now : Instant)
    (h : notice.peer? = some peer) : about [(now, notice)] peer = [(now, notice)] := by
  rw [about, List.filter_cons, h, beq_self_eq_true, if_pos rfl, List.filter_nil]

theorem History.about_singleton_of_ne {notice : Notice} {peer : Address} (now : Instant)
    (h : notice.peer? ≠ some peer) : about [(now, notice)] peer = [] := by
  rw [about, List.filter_cons, beq_false_of_ne h, if_neg Bool.false_ne_true, List.filter_nil]

theorem Transport.peer?_notice (transport : Transport) (now : Instant) (past : History)
    (effect : Effect) : (transport.notice now past effect).peer? = some effect.peer := by
  cases effect with
  | transmit target p => rfl
  | dispatch source payload => rfl

theorem Node.counted_frame (n : Node) (notice : Notice) :
    (n.counted notice).endPoint.config = n.endPoint.config ∧
      (n.counted notice).endPoint.connections = n.endPoint.connections ∧
      (n.counted notice).receiving = n.receiving := by
  unfold Node.counted
  split
  · exact ⟨rfl, rfl, rfl⟩
  · exact ⟨rfl, rfl, rfl⟩
  · exact ⟨rfl, rfl, rfl⟩

namespace Session

variable {transport : Transport} {now : Instant} {peer : Address} {s t : Session}

theorem performAll_frame (effects : List Effect) :
    let s' := effects.foldl (perform transport now) s
    s'.node.endPoint.config = s.node.endPoint.config ∧
      s'.node.endPoint.connections = s.node.endPoint.connections ∧
      s'.node.receiving = s.node.receiving := by
  induction effects generalizing s with
  | nil => exact ⟨rfl, rfl, rfl⟩
  | cons effect rest ih =>
      obtain ⟨hconfig, hconn, hrec⟩ := @ih (perform transport now s effect)
      obtain ⟨hconfig', hconn', hrec'⟩ := s.node.counted_frame
        (transport.notice now (s.history.about effect.peer) effect)
      exact ⟨hconfig.trans hconfig', hconn.trans hconn', hrec.trans hrec'⟩

/-- A peer notices the effects about it, and they depend on what it noticed before. -/
theorem about_performAll (effects : List Effect) :
    (effects.foldl (perform transport now) s).history.about peer =
      transport.extend now (s.history.about peer) (effects.filter (·.peer == peer)) := by
  induction effects generalizing s with
  | nil => rfl
  | cons effect rest ih =>
      rw [List.foldl_cons, ih, List.filter_cons]
      have hpeer := transport.peer?_notice now (s.history.about effect.peer) effect
      have hhistory : (perform transport now s effect).history = s.history ++
        [(now, transport.notice now (s.history.about effect.peer) effect)] := rfl
      rw [hhistory, History.about_append]
      split
      · next heq =>
          rw [eq_of_beq heq] at hpeer ⊢
          rw [History.about_singleton_of_eq now hpeer]
          rfl
      · next hne =>
          have hother : (transport.notice now (s.history.about effect.peer) effect).peer? ≠
              some peer := by
            rw [hpeer]
            exact fun heq => hne (beq_iff_eq.mpr (Option.some.inj heq))
          rw [History.about_singleton_of_ne now hother, List.append_nil]

/-! ## One input -/

theorem receiving_afterInput {n n' : Node} (h : n.receiving = n'.receiving) (answer : Answer)
    (input : Input) :
    (n.afterInput answer input).receiving = (n'.afterInput answer input).receiving := by
  unfold Node.afterInput
  split
  · unfold Node.afterReceive
    split
    · rfl
    · exact h
  · exact h

theorem endPoint_afterInput (n : Node) (answer : Answer) (input : Input) :
    (n.afterInput answer input).endPoint = n.endPoint := by
  unfold Node.afterInput
  split
  · exact n.endPoint_afterReceive answer
  · rfl

/-- Everything about an input that was worked off. -/
structure Acted (transport : Transport) (now : Instant) (s : Session) (input : Input)
    (s' : Session) : Prop where
  config : s'.node.endPoint.config = (s.node.endPoint.step now input).endPoint.config
  connections :
    s'.node.endPoint.connections = (s.node.endPoint.step now input).endPoint.connections
  receiving : s'.node.receiving =
    (s.node.afterInput (s.node.endPoint.step now input).answer input).receiving
  history : ∀ peer, s'.history.about peer =
    transport.extend now (s.history.about peer)
        ((s.node.endPoint.step now input).effects.filter (·.peer == peer)) ++
      History.about [(now, .answered input (s.node.endPoint.step now input).answer)] peer

theorem acted (transport : Transport) (now : Instant) (s : Session) (input : Input) :
    Acted transport now s input (s.act transport now input) := by
  let mid : Session :=
    { s with node := { s.node with endPoint := (s.node.endPoint.step now input).endPoint } }
  obtain ⟨hconfig, hconn, hrec⟩ := @performAll_frame transport now mid
    (s.node.endPoint.step now input).effects
  refine ⟨?_, ?_, ?_, fun peer => ?_⟩
  · rw [act, endPoint_afterInput]
    exact hconfig
  · rw [act, endPoint_afterInput]
    exact hconn
  · rw [act]
    refine receiving_afterInput ?_ _ _
    exact hrec
  · rw [act, History.about_append]
    exact congrArg (· ++ _) (about_performAll _)

/-- Two sessions that look alike to a peer. -/
structure Alike (peer : Address) (s t : Session) : Prop where
  config : s.node.endPoint.config = t.node.endPoint.config
  connection : s.connection peer = t.connection peer
  history : s.history.about peer = t.history.about peer
  receiving : s.node.receiving = t.node.receiving
  ordered : s.node.endPoint.connections.Ordered
  ordered' : t.node.endPoint.connections.Ordered

theorem Alike.act_own (h : Alike peer s t) {input : Input} (hpeer : input.peer? = some peer) :
    Alike peer (s.act transport now input) (t.act transport now input) := by
  obtain ⟨r, -, hr⟩ := EndPoint.reacts_step hpeer now
  have hs := hr s.node.endPoint rfl rfl
  have ht := hr t.node.endPoint h.config.symm h.connection.symm
  have hs' := acted transport now s input
  have ht' := acted transport now t input
  refine ⟨?_, ?_, ?_, ?_, ?_, ?_⟩
  · rw [hs'.config, ht'.config, hs.config, ht.config, h.config]
  · rw [Session.connection, Session.connection, hs'.connections, ht'.connections,
      hs.connections, ht.connections, Change.find?_apply_self, Change.find?_apply_self]
    exact congrArg r.change.result h.connection
  · rw [hs'.history, ht'.history, hs.effects, ht.effects, hs.answer, ht.answer, h.history]
  · rw [hs'.receiving, ht'.receiving, hs.answer, ht.answer]
    exact receiving_afterInput h.receiving _ _
  · rw [hs'.connections, hs.connections]
    exact h.ordered.apply _ _
  · rw [ht'.connections, ht.connections]
    exact h.ordered'.apply _ _

theorem Alike.act_scan (h : Alike peer s t) :
    Alike peer (s.act transport now .scan) (t.act transport now .scan) := by
  have hs := acted transport now s .scan
  have ht := acted transport now t .scan
  have hscan (e : EndPoint) : e.step now .scan = e.scan now := rfl
  refine ⟨?_, ?_, ?_, ?_, ?_, ?_⟩
  · rw [hs.config, ht.config]
    exact h.config
  · rw [Session.connection, Session.connection, hs.connections, ht.connections, hscan, hscan,
      EndPoint.find?_scan, EndPoint.find?_scan]
    exact congrArg (Option.map _) h.connection
  · rw [hs.history, ht.history, hscan, hscan, EndPoint.filter_scan h.ordered,
      EndPoint.filter_scan h.ordered', h.history]
    exact congrArg (fun c => transport.extend now _ (EndPoint.again peer now c) ++ _) h.connection
  · rw [hs.receiving, ht.receiving]
    exact h.receiving
  · rw [hs.connections]
    exact EndPoint.ordered_scan h.ordered now
  · rw [ht.connections]
    exact EndPoint.ordered_scan h.ordered' now

/-- An input about someone else makes no difference, if it leaves the receive loop running. -/
theorem Alike.act_other (h : Alike peer s t) {input : Input} {other : Address}
    (hpeer : input.peer? = some other) (hne : peer ≠ other)
    (hrec : (s.act transport now input).node.receiving = s.node.receiving) :
    Alike peer (s.act transport now input) t := by
  obtain ⟨r, heffects, hr⟩ := EndPoint.reacts_step hpeer now
  have hs := hr s.node.endPoint rfl rfl
  have hs' := acted transport now s input
  refine ⟨?_, ?_, ?_, hrec.trans h.receiving, ?_, h.ordered'⟩
  · rw [hs'.config, hs.config, h.config]
  · rw [Session.connection, hs'.connections, hs.connections, Change.find?_apply_of_ne _ hne]
    exact h.connection
  · have hnone : r.effects.filter (·.peer == peer) = [] := by
      rw [List.filter_eq_nil_iff]
      intro effect hm heq
      exact hne ((eq_of_beq heq).symm.trans (heffects effect hm))
    have hother : (Notice.answered input r.answer).peer? ≠ some peer := by
      rw [Notice.peer?, hpeer]
      exact fun heq => hne (Option.some.inj heq).symm
    rw [hs'.history, hs.effects, hs.answer, hnone, History.about_singleton_of_ne now hother,
      List.append_nil]
    exact h.history
  · rw [hs'.connections, hs.connections]
    exact h.ordered.apply _ _

/-! ## Runs -/

/-- The receive loop runs only with settings that let engines be built. -/
def Lasts (s : Session) : Prop :=
  s.node.receiving = true → s.node.endPoint.config.Builds

theorem peer?_reach {n : Node} {input reached : Input} (h : n.reach input = some reached) :
    reached.peer? = input.peer? := by
  cases input with
  | datagram source bytes =>
      rw [Node.reach] at h
      split at h
      · cases h
        rfl
      · cases h
  | _ =>
      cases h
      rfl

theorem Lasts.receiving_act (h : s.Lasts) {input reached : Input}
    (hreach : s.node.reach input = some reached) :
    (s.act transport now reached).node.receiving = s.node.receiving := by
  rw [(acted transport now s reached).receiving]
  cases input with
  | datagram source bytes =>
      rw [Node.reach] at hreach
      split at hreach
      · next hrec =>
          cases hreach
          have hdone := EndPoint.answer_onDatagram (h hrec) source (s.node.received bytes) now
          rw [EndPoint.step, hdone]
          rfl
      · cases hreach
  | _ =>
      cases hreach
      rfl

theorem Lasts.step (h : s.Lasts) (transport : Transport) (entry : Instant × Input) :
    (s.step transport entry).Lasts ∧
      (s.step transport entry).node.receiving = s.node.receiving := by
  rw [Session.step]
  split
  · exact ⟨h, rfl⟩
  · next input hreach =>
      have hrec : (s.act transport entry.1 input).node.receiving = s.node.receiving :=
        h.receiving_act hreach
      refine ⟨fun hr => ?_, hrec⟩
      rw [(acted transport entry.1 s input).config, EndPoint.config_step]
      exact h (hrec ▸ hr)

theorem Alike.reach (h : Alike peer s t) (input : Input) :
    s.node.reach input = t.node.reach input := by
  cases input with
  | datagram source bytes =>
      rw [Node.reach, Node.reach, Node.received, Node.received, h.receiving, h.config]
  | _ => rfl

theorem Alike.step (h : Alike peer s t) (transport : Transport) {entry : Instant × Input}
    (hc : entry.2.concerns peer = true) :
    Alike peer (s.step transport entry) (t.step transport entry) := by
  rw [Session.step, Session.step, ← h.reach]
  cases hreach : s.node.reach entry.2 with
  | none => exact h
  | some input =>
      show Alike peer (s.act transport entry.1 input) (t.act transport entry.1 input)
      rcases Input.cases_of_concerns hc with hscan | hpeer
      · rw [hscan] at hreach
        cases hreach
        exact h.act_scan
      · exact h.act_own ((peer?_reach hreach).trans hpeer)

/-- Any other input may be left out. -/
theorem Alike.step_other (h : Alike peer s t) (hs : s.Lasts) (transport : Transport)
    {entry : Instant × Input} (hc : entry.2.concerns peer = false) :
    Alike peer (s.step transport entry) t := by
  obtain ⟨other, hother, hne⟩ := Input.exists_of_not_concerns hc
  rw [Session.step]
  cases hreach : s.node.reach entry.2 with
  | none => exact h
  | some input =>
      exact h.act_other ((peer?_reach hreach).trans hother) hne (hs.receiving_act hreach)

theorem Alike.run (h : Alike peer s t) (hs : s.Lasts) (transport : Transport)
    (inputs : List (Instant × Input)) :
    Alike peer (s.run transport inputs)
      (t.run transport (inputs.filter fun entry => entry.2.concerns peer)) := by
  induction inputs generalizing s t with
  | nil => exact h
  | cons entry rest ih =>
      have hlasts := (hs.step transport entry).1
      rw [List.filter_cons]
      cases hc : entry.2.concerns peer with
      | true => exact ih (h.step transport hc) hlasts
      | false => exact ih (h.step_other hs transport hc) hlasts

/-! ## A receive loop that ends -/

theorem step_of_not_receiving (h : s.node.receiving = false) (source : Address) (bytes : Bytes) :
    s.step transport (now, .datagram source bytes) = s := by
  rw [step, Node.reach, h, if_neg Bool.false_ne_true]

theorem step_of_receiving (h : s.node.receiving = true) (source : Address) (bytes : Bytes) :
    s.step transport (now, .datagram source bytes) =
      s.act transport now (.datagram source (s.node.received bytes)) := by
  rw [step, Node.reach, h, if_pos rfl]

theorem onDatagram_of_fault {e : EndPoint} {fault : Fault} {source : Address}
    (hnone : e.connections.find? source = none) (hfault : e.newEngine = .error (.fault fault))
    (seq : SeqNum) (payload : Bytes) :
    (e.onDatagram source (Packet.data seq payload).encode now).answer =
        .refused (.start (.fault fault)) ∧
      (e.onDatagram source (Packet.data seq payload).encode now).effects = [] := by
  have hfor (traffic : Traffic) :
      EndPoint.engineFor { e with traffic } source = .error (.fault fault) := by
    rw [EndPoint.engineFor, hnone]
    exact hfault
  have hkind : (Packet.data seq payload).kind = .data := rfl
  simp only [EndPoint.onDatagram, Packet.decode_encode, EndPoint.onPacket, hkind, EndPoint.onData,
    hfor, and_self]

/-- It ends the receive loop, and the next peer is not answered. -/
theorem not_isolates {config : EndPointConfig} (hvalid : config.Valid)
    (hfits : Allocation.fits config.receiveLength = true) (hb : ¬ config.Builds) :
    ¬ (start ⟨config, .empty, {}⟩).Isolates := by
  intro h
  obtain ⟨fault, hfault⟩ := EndPoint.exists_fault hvalid hb
  let peer : Address := ⟨.v4 127 0 0 1, 3⟩
  let other : Address := ⟨.v4 127 0 0 1, 2⟩
  let transport : Transport := fun _ _ _ bytes => some bytes.length
  let fresh := start ⟨config, .empty, {}⟩
  let ended := fresh.act transport 0 (.datagram other (Packet.data .first []).encode)
  have hnoticed := (h transport peer [(0, .datagram other (Packet.data .first []).encode),
    (0, .datagram peer (Packet.fin .first).encode)]).1
  obtain ⟨hanswer, heffects⟩ :=
    @onDatagram_of_fault 0 fresh.node.endPoint fault other rfl hfault .first []
  have hended := acted transport 0 fresh (.datagram other (Packet.data .first []).encode)
  have hsilent : ended.history.about peer = [] := by
    rw [hended.history, EndPoint.step, heffects]
    rfl
  have hreceiving : ended.node.receiving = false := by
    rw [hended.receiving, EndPoint.step, hanswer]
    rfl
  -- the datagram of the peer is lost behind the other one, and answered without it
  have hwhole : fresh.run transport [(0, .datagram other (Packet.data .first []).encode),
      (0, .datagram peer (Packet.fin .first).encode)] = ended := by
    have hfirst : fresh.step transport (0, .datagram other (Packet.data .first []).encode) =
        ended := by
      rw [step_of_receiving hfits, Node.received_encode hvalid]
    rw [run, List.foldl_cons, hfirst, List.foldl_cons, List.foldl_nil]
    exact step_of_not_receiving hreceiving _ _
  have halone : fresh.run transport [(0, .datagram peer (Packet.fin .first).encode)] =
      fresh.act transport 0 (.datagram peer (Packet.fin .first).encode) := by
    show fresh.step transport _ = _
    rw [step_of_receiving hfits, Node.received_encode hvalid]
  have hanswered := (acted transport 0 fresh
    (.datagram peer (Packet.fin .first).encode)).history peer
  rw [← halone] at hanswered
  rw [hwhole, hsilent] at hnoticed
  have hnil := (List.append_eq_nil_iff.mp (hanswered.symm.trans hnoticed.symm)).2
  cases hnil

end Session

/-! ## Nodes of a network -/

/-- The event of a node that a notice tells of. -/
def Notice.event? (i : Nat) : Notice → Option Event
  | .handed target bytes (some _) => some (.sent i target bytes)
  | .dispatched source payload => some (.got i source payload)
  | _ => none

/-- The transport of a node whose sends do not fail. -/
def Node.transport (n : Node) : Transport := fun _ _ _ bytes => some (n.reported bytes.length)

/-- Hands an input to a node of a network. -/
def Network.take (net : Network) (i : Nat) : Input → Network × List Event
  | .datagram source bytes => net.receive i source bytes
  | input => (net.act i input).2

namespace Session

/-- A session of a node whose sends do not fail and whose application listens. -/
structure Mirrors (s : Session) (net : Network) (i : Nat) (transport : Transport) : Prop where
  node : net.nodes[i]? = some s.node
  sends : s.node.failingSends = 0
  listens : s.node.listening = true
  transport : transport = s.node.transport

/-- Session and network are the same after some steps, and so are notices and events. -/
structure Tracks (s : Session) (net : Network) (i : Nat) (transport : Transport) (s' : Session)
    (step : Network × List Event) : Prop where
  mirrors : s'.Mirrors step.1 i transport
  now : step.1.now = net.now
  events : ∃ added, s'.history = s.history ++ added ∧
    step.2 = added.filterMap fun entry => entry.2.event? i

section Mirrors

variable {s : Session} {net : Network} {i : Nat} {transport : Transport}

theorem Mirrors.perform (h : s.Mirrors net i transport) (now : Instant) (effect : Effect) :
    s.Tracks net i transport (s.perform transport now effect) (net.perform i effect) := by
  obtain ⟨hnode, hsends, hlistens, rfl⟩ := h
  cases effect with
  | transmit target p =>
      have hgo : s.node.transmit p.encode.length = ({ s.node with
          endPoint := s.node.endPoint.countSent (s.node.reported p.encode.length) }, true) := by
        rw [Node.transmit, if_pos hsends]
      simp only [Network.perform, hnode, Network.transmit, hgo, if_true]
      refine ⟨⟨?_, hsends, hlistens, rfl⟩, rfl, _, rfl, rfl⟩
      simp [Network.modifyNode, hnode]
      rfl
  | dispatch source payload =>
      simp only [Network.perform, hnode, hlistens, if_true]
      exact ⟨⟨hnode, hsends, hlistens, rfl⟩, rfl, _, rfl, rfl⟩

theorem Mirrors.performAll (h : s.Mirrors net i transport) (now : Instant)
    (effects : List Effect) :
    s.Tracks net i transport (effects.foldl (Session.perform transport now) s)
      (net.performAll i effects) := by
  induction effects generalizing s net with
  | nil => exact ⟨h, rfl, [], (List.append_nil _).symm, rfl⟩
  | cons effect rest ih =>
      obtain ⟨hmid, hnow, first, hfirst, hevents⟩ := h.perform now effect
      obtain ⟨hlast, hnow', more, hmore, hevents'⟩ := ih hmid
      refine ⟨hlast, hnow'.trans hnow, first ++ more, ?_, ?_⟩
      · rw [List.foldl_cons, hmore, hfirst, List.append_assoc]
      · rw [List.filterMap_append, ← hevents, ← hevents']
        rfl

theorem Tracks.answered {mid : Session} {step : Network × List Event}
    (h : s.Tracks net i transport mid step) (now : Instant) (input : Input) (answer : Answer) :
    s.Tracks net i transport
      { node := mid.node.afterInput answer input
        history := mid.history ++ [(now, .answered input answer)] }
      (step.1.modifyNode i (·.afterInput answer input), step.2) := by
  obtain ⟨hmirrors, hnow, added, hadded, hevents⟩ := h
  have hframe : (mid.node.afterInput answer input).failingSends = mid.node.failingSends ∧
      (mid.node.afterInput answer input).listening = mid.node.listening ∧
      (mid.node.afterInput answer input).transport = mid.node.transport := by
    unfold Node.afterInput
    split
    · unfold Node.afterReceive
      split
      · exact ⟨rfl, rfl, rfl⟩
      · exact ⟨rfl, rfl, rfl⟩
    · exact ⟨rfl, rfl, rfl⟩
  refine ⟨⟨?_, hframe.1.trans hmirrors.sends, hframe.2.1.trans hmirrors.listens,
    hmirrors.transport.trans hframe.2.2.symm⟩, hnow, added ++ [(now, .answered input answer)],
    ?_, ?_⟩
  · simp [Network.modifyNode, hmirrors.node]
  · rw [hadded, List.append_assoc]
  · rw [List.filterMap_append, ← hevents]
    exact (List.append_nil _).symm

theorem Mirrors.act (h : s.Mirrors net i transport) (input : Input) :
    s.Tracks net i transport (s.act transport net.now input)
      ((net.act i input).2.1.modifyNode i (·.afterInput (net.act i input).1 input),
        (net.act i input).2.2) := by
  let outcome := s.node.endPoint.step net.now input
  let start : Session := { s with node := { s.node with endPoint := outcome.endPoint } }
  let touched := net.modifyNode i fun n => { n with endPoint := outcome.endPoint }
  have hstart : start.Mirrors touched i transport := by
    refine ⟨?_, h.sends, h.listens, h.transport⟩
    simp [touched, start, Network.modifyNode, h.node]
  obtain ⟨hmirrors, hnow, hevents⟩ := hstart.performAll net.now outcome.effects
  have hact : net.act i input = (outcome.answer, touched.performAll i outcome.effects) := by
    simp only [Network.act, h.node]
    rfl
  have hmid : s.Tracks net i transport
      (outcome.effects.foldl (Session.perform transport net.now) start)
      (touched.performAll i outcome.effects) := ⟨hmirrors, hnow, hevents⟩
  rw [hact]
  exact hmid.answered net.now input outcome.answer

/-- Whatever a network makes of an input to a node is a step of the node's session. -/
theorem Mirrors.take (h : s.Mirrors net i transport) (input : Input) :
    s.Tracks net i transport (s.step transport (net.now, input)) (net.take i input) := by
  have hact := h.act input
  have hcalm (net : Network) : net.modifyNode i (fun n => n) = net := by
    have hnodes : net.nodes.modify i (fun n => n) = net.nodes := by
      refine List.ext_getElem? fun j => ?_
      rw [List.getElem?_modify]
      simp
    rw [Network.modifyNode, hnodes]
  cases input with
  | datagram source bytes =>
      rw [Network.take, Network.receive, h.node]
      cases hrec : s.node.receiving with
      | false =>
          rw [step_of_not_receiving hrec]
          simp only [hrec, Bool.false_eq_true, if_false]
          exact ⟨h, rfl, [], (List.append_nil _).symm, rfl⟩
      | true =>
          rw [step_of_receiving hrec]
          simp only [hrec, if_true]
          exact h.act (.datagram source (s.node.received bytes))
  | connect | send | close | scan =>
      simp only [Node.afterInput, hcalm] at hact
      exact hact

end Mirrors

/-! ## Main result -/

theorem alike_start {e : EndPoint} (h : e.connections.Ordered) (peer : Address) :
    Alike peer (start e) (start e) :=
  ⟨rfl, rfl, rfl, rfl, h, h⟩

/-- No peer of an end point with checked settings notices the others, whatever they do and
whatever the transport does, exactly if the settings of a running receive loop let engines be
built. -/
theorem isolates_iff {config : EndPointConfig} {e : EndPoint} (hnew : EndPoint.new config = .ok e) :
    (start e).Isolates ↔ (Allocation.fits config.receiveLength = true → config.Builds) := by
  obtain ⟨hvalid, rfl⟩ := EndPoint.eq_of_new hnew
  constructor
  · intro h hfits
    by_contra hb
    exact not_isolates hvalid hfits hb h
  · intro hlasts transport peer inputs
    have hstart := alike_start (e := ⟨config, .empty, {}⟩) List.Pairwise.nil peer
    have hend := hstart.run hlasts transport inputs
    exact ⟨hend.history, hend.connection⟩

/-- Settings that pass every check, but let no engine be built. -/
def hugeTable : EndPointConfig where
  reliability := Engine.hugeTable

theorem isolates_unless_hugeTable :
    (∃ e, EndPoint.new {} = .ok e ∧ (start e).Isolates) ∧
      ∃ e, EndPoint.new hugeTable = .ok e ∧ ¬ (start e).Isolates := by
  have hnew : EndPoint.new hugeTable = .ok ⟨hugeTable, .empty, {}⟩ := rfl
  have hbuilds : EndPointConfig.Builds {} := ⟨_, rfl⟩
  refine ⟨⟨_, rfl, (isolates_iff rfl).mpr fun _ => hbuilds⟩, _, hnew, fun h => ?_⟩
  obtain ⟨engine, hbuilt⟩ := (isolates_iff hnew).mp h rfl
  cases hbuilt

end Session

end ReliableDatagram
