/-
A network of two end points as an exchange.

A network stands for an exchange if each node keeps its engine's state, every
datagram is a packet in bytes, and the clocks agree.  Carrying out effects
puts their packets on the wire in order and leaves everything else as it is;
a damaged datagram is dropped; an intact one is one operation of an engine,
unless the node cannot have one or has no buffer to receive with.

Whether a side can receive is read off its settings alone.  A receive loop runs
from the start if its buffer for datagrams can be had, and it ends when a packet
needs an engine that cannot be had; so `Runs` has the loop running wherever the
side serves, and says nothing of when it ends elsewhere.  That a side does not
serve is then enough to know that it never takes up DATA.

What one node does changes that node and adds to the wire.  `Stands.modify` and
`Stands.touch` say so for a change that keeps the state of an engine and for one
that keeps the node's settings and engine, as counters of traffic do; the lemmas
about effects and inputs are put together from them, and no other one opens the
list of nodes.

The two sides are told apart by `Side` where they play a part and by their index
where they are nodes of a network.
-/
import Mathlib.Data.List.Basic
import ReliableDatagram.Proofs.EndPoint.Peer
import ReliableDatagram.Proofs.Network.Pair
import ReliableDatagram.Proofs.Packet.Corruption

namespace ReliableDatagram

namespace Side

theorem index_inj {s t : Side} (h : s.index = t.index) : s = t := by
  cases s with
  | left => cases t with
      | left => rfl
      | right => cases h
  | right => cases t with
      | left => cases h
      | right => rfl

end Side

/-! ## Effects -/

namespace Effect

/-- What can be seen of an effect of a node that sends and listens. -/
def event (i : Nat) : Effect → Event
  | transmit target p => .sent i target p.encode
  | dispatch source payload => .got i source payload

theorem payloads_of_events (s t : Side) (effects : List Effect) :
    (effects.map (event s.index)).filterMap (Event.payload? t) =
      if t = s then effects.filterMap payload? else [] := by
  rw [List.filterMap_map]
  split
  · rename_i h
    subst h
    refine List.filterMap_congr ?_
    intro effect _
    cases effect with
    | transmit target p => rfl
    | dispatch source payload => simp [event, Event.payload?, payload?]
  · rename_i h
    refine List.filterMap_eq_nil_iff.mpr ?_
    intro effect _
    cases effect with
    | transmit target p => rfl
    | dispatch source payload =>
        have : s.index ≠ t.index := fun heq => h (Side.index_inj heq).symm
        simp [event, Event.payload?, this]

theorem bytes_of_events (s : Side) (effects : List Effect) :
    (effects.map (event s.index)).filterMap (Event.bytes? s) =
      (effects.filterMap packet?).map (·.encode) := by
  rw [List.filterMap_map, List.map_filterMap]
  refine List.filterMap_congr ?_
  intro effect _
  cases effect with
  | transmit target p => simp [event, Event.bytes?, packet?]
  | dispatch source payload => rfl

end Effect

/-! ## Nodes -/

namespace Pair

/-- Whether a side can receive DATA: it has a buffer for datagrams and can have an engine. -/
structure Serves (S : Pair) (s : Side) : Prop where
  fits : Allocation.fits (S.config s).receiveLength = true
  builds : (S.config s).Builds

/-- Whether a side can work off packets of a kind.  Only DATA needs an engine. -/
structure Handles (S : Pair) (s : Side) (kind : PacketKind) : Prop where
  fits : Allocation.fits (S.config s).receiveLength = true
  serves : kind = .data → S.Serves s

/-- A node of the pair in a run. -/
structure Runs (S : Pair) (s : Side) (node : Node) (l : LockedEngine) : Prop where
  keeps : node.endPoint.Keeps (S.config s) (S.address s.other) l
  sending : node.failingSends = 0
  listening : node.listening = true
  scanning : node.scanning = true
  receives : node.receiving = true → Allocation.fits (S.config s).receiveLength = true
  awake : S.Serves s → node.receiving = true

/-- A network in the state of an exchange. -/
structure Stands (S : Pair) (net : Network) (x : Exchange) : Prop where
  timer : net.timer = S.timer
  length : net.nodes.length = 2
  nodes : ∀ s, ∃ node, net.nodes[s.index]? = some node ∧ S.Runs s node (x.engine s)
  wire : net.wire = x.wire.map S.datagram
  now : net.now = x.now

section Stands

variable {S : Pair} {net : Network} {x : Exchange}

theorem runs_start (S : Pair) (s : Side) :
    S.Runs s (.start (S.endPoint s) true) (.start (S.config s).reliability) :=
  ⟨EndPoint.keeps_new _ _ _, rfl, rfl, rfl, id, Serves.fits⟩

theorem stands_start (S : Pair) :
    S.Stands S.start (.start fun s => (S.config s).reliability) := by
  refine ⟨rfl, rfl, ?_, rfl, rfl⟩
  intro s
  cases s with
  | left => exact ⟨_, rfl, S.runs_start .left⟩
  | right => exact ⟨_, rfl, S.runs_start .right⟩

theorem Runs.address {s : Side} {node : Node} {l : LockedEngine} (h : S.Runs s node l) :
    node.address = S.address s := by
  rw [Node.address, h.keeps.config_eq, Pair.address]

theorem address_ne (S : Pair) (s : Side) : S.address s ≠ S.address s.other := by
  cases s with
  | left => exact S.apart
  | right => exact S.apart.symm

theorem Stands.handed (h : S.Stands net x) (s : Side) (released : List Packet) :
    S.Stands net (x.handed s released) :=
  ⟨h.timer, h.length, h.nodes, h.wire, h.now⟩

theorem Stands.taken (h : S.Stands net x) (s : Side) (p : Packet) (payload : Bytes) :
    S.Stands net (x.taken s p payload) :=
  ⟨h.timer, h.length, h.nodes, h.wire, h.now⟩

theorem Stands.elapse (h : S.Stands net x) (span : Nat) :
    S.Stands { net with now := net.now + span } { x with now := x.now + span } :=
  ⟨h.timer, h.length, h.nodes, h.wire, by rw [h.now]⟩

theorem Stands.modify (h : S.Stands net x) {s : Side} {l : LockedEngine} {f : Node → Node}
    (hf : ∀ node, net.nodes[s.index]? = some node → S.Runs s (f node) l) :
    S.Stands (net.modifyNode s.index f) { x with engine := Function.update x.engine s l } := by
  refine ⟨h.timer, ?_, Side.forall_of s ?_ ?_, h.wire, h.now⟩
  · rw [Network.modifyNode, List.length_modify, h.length]
  · obtain ⟨node, hn, -⟩ := h.nodes s
    refine ⟨f node, ?_, ?_⟩
    · simp [Network.modifyNode, hn]
    · simp only [Function.update_self]
      exact hf node hn
  · obtain ⟨node, hn, hr⟩ := h.nodes s.other
    refine ⟨node, ?_, ?_⟩
    · have : s.index ≠ s.other.index := fun heq => s.ne_other (Side.index_inj heq)
      simp [Network.modifyNode, hn, this]
    · simp only [Function.update_of_ne s.other_ne]
      exact hr

theorem Stands.touch (h : S.Stands net x) {s : Side} {f : Node → Node}
    (hf : ∀ node, net.nodes[s.index]? = some node → S.Runs s node (x.engine s) →
      S.Runs s (f node) (x.engine s)) : S.Stands (net.modifyNode s.index f) x := by
  have hm := h.modify (s := s) (l := x.engine s) (f := f) fun node hn => by
    obtain ⟨node', hn', hr⟩ := h.nodes s
    rw [hn] at hn'
    cases hn'
    exact hf node hn hr
  rwa [Function.update_eq_self] at hm

/-! ## Carrying out effects -/

theorem Stands.perform_transmit (h : S.Stands net x) (s : Side) (p : Packet) :
    S.Stands (net.perform s.index (.transmit (S.address s.other) p)).1
        { x with wire := x.wire ++ [(s, p)] } ∧
      (net.perform s.index (.transmit (S.address s.other) p)).2 =
        [.sent s.index (S.address s.other) p.encode] := by
  obtain ⟨node, hn, hr⟩ := h.nodes s
  have hgo : node.transmit p.encode.length = ({ node with
      endPoint := node.endPoint.countSent (node.reported p.encode.length) }, true) := by
    rw [Node.transmit, if_pos hr.sending]
  have ht := h.touch (s := s) (f := fun _ => { node with
      endPoint := node.endPoint.countSent (node.reported p.encode.length) })
    fun node' hn' hr' => ⟨hr.keeps.with_traffic _, hr.sending, hr.listening, hr.scanning,
      hr.receives, hr.awake⟩
  simp only [Network.perform, hn, Network.transmit, hgo, if_true]
  refine ⟨⟨ht.timer, ht.length, ht.nodes, ?_, ht.now⟩, trivial⟩
  rw [List.map_append, ← ht.wire, hr.address]
  rfl

theorem Stands.perform_dispatch (h : S.Stands net x) (s : Side) (source : Address)
    (payload : Bytes) : net.perform s.index (.dispatch source payload) =
      (net, [.got s.index source payload]) := by
  obtain ⟨node, hn, hr⟩ := h.nodes s
  simp only [Network.perform, hn, hr.listening, if_true]

theorem Stands.performAll {s : Side} (effects : List Effect) :
    ∀ {net : Network} {x : Exchange}, S.Stands net x →
      (∀ effect ∈ effects, effect.peer = S.address s.other) →
      S.Stands (net.performAll s.index effects).1
          { x with wire := x.wire ++ (effects.filterMap Effect.packet?).map fun p => (s, p) } ∧
        (net.performAll s.index effects).2 = effects.map (Effect.event s.index) := by
  induction effects with
  | nil =>
      intro net x h _
      refine ⟨?_, rfl⟩
      simpa [Network.performAll] using h
  | cons effect rest ih =>
      intro net x h hp
      obtain ⟨hpeer, hrest⟩ := List.forall_mem_cons.mp hp
      cases effect with
      | transmit target p =>
          obtain rfl : target = S.address s.other := hpeer
          obtain ⟨hs, he⟩ := h.perform_transmit s p
          obtain ⟨hs', he'⟩ := ih hs hrest
          simp only [Network.performAll, he, he']
          refine ⟨?_, rfl⟩
          simpa [Effect.packet?] using hs'
      | dispatch source payload =>
          obtain ⟨hs', he'⟩ := ih h hrest
          simp only [Network.performAll, h.perform_dispatch, he']
          exact ⟨hs', rfl⟩

/-- A node is given an input, and what follows from it is carried out. -/
theorem Stands.act (h : S.Stands net x) {s : Side} {node : Node} (input : Input)
    {answer : Answer} {e : EndPoint} {effects : List Effect} {l : LockedEngine}
    (hn : net.nodes[s.index]? = some node)
    (ho : node.endPoint.step net.now input = ⟨answer, e, effects⟩)
    (hk : e.Keeps (S.config s) (S.address s.other) l)
    (hp : ∀ effect ∈ effects, effect.peer = S.address s.other) :
    ∃ net', net.act s.index input = (answer, net', effects.map (Effect.event s.index)) ∧
      S.Stands net' (x.post s l (effects.filterMap Effect.packet?)) := by
  obtain ⟨node', hn', hr⟩ := h.nodes s
  rw [hn] at hn'
  cases hn'
  have hm := h.modify (s := s) (l := l) (f := fun n => { n with endPoint := e })
    fun node' hn' => by
      rw [hn] at hn'
      cases hn'
      exact ⟨hk, hr.sending, hr.listening, hr.scanning, hr.receives, hr.awake⟩
  obtain ⟨hs, he⟩ := hm.performAll effects hp
  simp only [Network.act, hn, ho]
  exact ⟨_, congrArg (fun events => (answer, _, events)) he, hs⟩

theorem Stands.act_quiet (h : S.Stands net x) {s : Side} {node : Node} (input : Input)
    {answer : Answer} {e : EndPoint} (hn : net.nodes[s.index]? = some node)
    (ho : node.endPoint.step net.now input = ⟨answer, e, []⟩)
    (hk : e.Keeps (S.config s) (S.address s.other) (x.engine s)) :
    ∃ net', net.act s.index input = (answer, net', []) ∧ S.Stands net' x := by
  obtain ⟨net', hact, hs⟩ := h.act input hn ho hk fun _ he => nomatch he
  refine ⟨net', hact, ?_⟩
  simpa [Exchange.post] using hs

/-! ## Datagrams -/

/-- A damaged datagram is no packet. -/
theorem decode_damaged (p : Packet) (damage : Damage) :
    damage.apply p.encode = p.encode ∨
      (damage.apply p.encode ≠ p.encode ∧
        ∃ error, Packet.decode (damage.apply p.encode) = .error error) := by
  by_cases heq : damage.apply p.encode = p.encode
  · exact .inl heq
  · refine .inr ⟨heq, ?_⟩
    cases hd : Packet.decode (damage.apply p.encode) with
    | error error => exact ⟨error, rfl⟩
    | ok q =>
        refine absurd ?_ heq
        cases damage with
        | none => rfl
        | cut length => exact Packet.decode_take hd
        | exchange position byte => exact Packet.decode_set hd

theorem length_apply_le (damage : Damage) (bytes : Bytes) :
    (damage.apply bytes).length ≤ bytes.length := by
  cases damage with
  | none => exact Nat.le_refl _
  | cut length => exact List.length_take_le' _ _
  | exchange position byte => exact Nat.le_of_eq List.length_set

theorem receiveLength_le (S : Pair) (s : Side) :
    maxPacketSize ≤ (S.config s).receiveLength := (S.valid s).checks.2.2.1

theorem Runs.received {s : Side} {node : Node} {l : LockedEngine} (h : S.Runs s node l)
    (p : Packet) (damage : Damage) :
    node.received (damage.apply p.encode) = damage.apply p.encode := by
  have h1 := length_apply_le damage p.encode
  have h2 := S.receiveLength_le s
  have h3 := p.size_le
  rw [p.length_encode] at h1
  rw [Node.received, h.keeps.config_eq]
  exact List.take_of_length_le (by omega)

theorem Stands.nodeAt? (h : S.Stands net x) (s : Side) :
    net.nodeAt? (S.address s) = some s.index := by
  obtain ⟨a, ha, hra⟩ := h.nodes .left
  obtain ⟨b, hb, hrb⟩ := h.nodes .right
  have hnodes : net.nodes = [a, b] := by
    match hl : net.nodes, h.length with
    | [a', b'], _ =>
        rw [hl] at ha hb
        cases ha
        cases hb
        rfl
  rw [Network.nodeAt?, hnodes]
  cases s with
  | left => simp [List.findIdx?_cons, hra.address, Side.index]
  | right =>
      have : S.address .left ≠ S.address .right := S.apart
      simp [List.findIdx?_cons, hra.address, hrb.address, Side.index, this]

theorem Stands.afterReceive (h : S.Stands net x) {s : Side} {answer : Answer}
    (ha : S.Serves s → answer = .done) :
    S.Stands (net.modifyNode s.index (·.afterReceive answer)) x := by
  refine h.touch ?_
  intro node _ hr
  unfold Node.afterReceive
  split
  · refine ⟨hr.keeps, hr.sending, hr.listening, hr.scanning, (fun h => nomatch h),
      fun hs => ?_⟩
    cases ha hs
  · exact hr

/-- What a datagram of one side does to the other side.  It does nothing if it is damaged or
if the other side cannot receive; otherwise the engine there reacts to its packet. -/
theorem Stands.handOver (h : S.Stands net x) (s : Side) {p : Packet}
    (hk : p.kind = .data ∨ p.kind = .ack ∨ p.kind = .syn) (damage : Damage) :
    ∃ net' events, net.handOver
        ⟨S.address s, S.address s.other, damage.apply p.encode⟩ = (net', events) ∧
      ((events = [] ∧ S.Stands net' x ∧
          (S.Serves s.other → damage.apply p.encode ≠ p.encode)) ∨
        ∃ (l : LockedEngine) (packets : List Packet) (effects : List Effect)
          (released : List Packet),
          LockedEngine.Reacts (S.config s.other).reliability (x.engine s.other) x.now p l
            packets released ∧
          S.Stands net' (x.post s.other l packets) ∧
          events = effects.map (Effect.event s.other.index) ∧
          (∀ effect ∈ effects, effect.peer = S.address s) ∧
          effects.filterMap Effect.packet? = packets ∧
          effects.filterMap Effect.payload? = released.map (·.payload) ∧
          damage.apply p.encode = p.encode ∧ S.Handles s.other p.kind) := by
  obtain ⟨node, hn, hr⟩ := h.nodes s.other
  have hkeep := hr.keeps
  rw [Side.other_other] at hkeep
  simp only [Network.handOver, h.nodeAt? s.other, Network.receive, hn]
  cases hrec : node.receiving with
  | false =>
      refine ⟨net, [], rfl, .inl ⟨rfl, h, ?_⟩⟩
      intro hs
      rw [hr.awake hs] at hrec
      cases hrec
  | true =>
      have hfits := hr.receives hrec
      simp only [if_true, hr.received]
      have hcount := hkeep.with_traffic
        (node.endPoint.traffic.countIn (damage.apply p.encode).length)
      -- a datagram decodes to the packet it was made of, or not at all
      rcases decode_damaged p damage with heq | ⟨hne, error, herr⟩
      · have hstep : node.endPoint.step net.now (.datagram (S.address s) (damage.apply p.encode)) =
            EndPoint.onPacket { node.endPoint with
              traffic := node.endPoint.traffic.countIn (damage.apply p.encode).length }
              (S.address s) p net.now := by
          simp only [EndPoint.step, EndPoint.onDatagram, heq, Packet.decode_encode]
        rcases hcount.onPacket hk net.now with ⟨hb, error, hon⟩ |
          ⟨l, packets, released, e, effects, hreact, hon, hkeep', hpeers, hpackets, hpayloads, hb⟩
        · rw [hon] at hstep
          obtain ⟨net', hact, hs⟩ := h.act_quiet _ hn hstep (by rw [Side.other_other]; exact hcount)
          rw [hact]
          refine ⟨_, _, rfl, .inl ⟨rfl, ?_, fun hs => absurd hs.builds hb⟩⟩
          -- no engine, so the loop may have ended; nobody asks this side to serve
          exact hs.afterReceive fun hs => absurd hs.builds hb
        · rw [hon] at hstep
          obtain ⟨net', hact, hs⟩ := h.act _ hn hstep (by rw [Side.other_other]; exact hkeep')
            (by rw [Side.other_other]; exact hpeers)
          rw [hact]
          rw [hpackets] at hs
          refine ⟨_, _, rfl, .inr ⟨l, packets, effects, released, h.now ▸ hreact, ?_, rfl, hpeers,
            hpackets, hpayloads, heq, hfits, fun hd => ⟨hfits, hb hd⟩⟩⟩
          exact hs.afterReceive fun _ => rfl
      · have hstep : node.endPoint.step net.now (.datagram (S.address s) (damage.apply p.encode)) =
            ⟨.done, { node.endPoint with traffic := (node.endPoint.traffic.countIn
              (damage.apply p.encode).length).countDecodeError }, []⟩ := by
          simp only [EndPoint.step, EndPoint.onDatagram, herr]
        obtain ⟨net', hact, hs⟩ := h.act_quiet _ hn hstep
          (by rw [Side.other_other]; exact hkeep.with_traffic _)
        rw [hact]
        exact ⟨_, _, rfl, .inl ⟨rfl, hs.afterReceive fun _ => rfl, fun _ => hne⟩⟩

end Stands

end Pair

end ReliableDatagram
