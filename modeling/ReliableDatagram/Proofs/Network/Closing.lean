/-
The end of a connection, seen from the network.

A FIN without ACK flag leaves an end point only with a close that took the
connection away, and a FIN|ACK only in answer to such a FIN.  That is an
invariant of the wire, and it carries from one command to the next: whatever
FIN is on its way, the close that it goes back to is in the past.  So a FIN|ACK
finds no connection but one that was opened after the close.

It removes that connection nevertheless.  The rule for FINs makes a difference
for the ACK flag where it replies, and none where it drops the connection.

The invariant is `Orderly`, for any relation that says between which addresses a
connection was closed.  It is kept by every command if the relation is the same
before and after, and by a close if the relation is enlarged by the connection
that was closed.  Since it only grows along a run, what was on the wire stays
accounted for.

Networks may have any number of nodes, all with addresses of their own.  Commands
may be any that leave datagrams as they are: a network that makes up datagrams or
changes bytes can make a FIN of anything, and nothing could be said of where it
comes from.  Losing, doubling and reordering are allowed.

The last part says what is done to a connection by a FIN|ACK that arrives.  It
follows one engine through the effects of an input: effects put datagrams on the
wire or tell the application, and no engine is changed by them.
-/
import Mathlib.Data.List.Induction
import ReliableDatagram.Network.Command
import ReliableDatagram.Proofs.EndPoint.Endings
import ReliableDatagram.Proofs.EndPoint.Isolation
import ReliableDatagram.Proofs.Network.Pair

namespace ReliableDatagram

/-! ## What is on the wire -/

/-- Whether a FIN of one address to another goes back to a close: its own or, if it is an answer,
the one that it answers. -/
def Packet.GoesBack (closed : Address → Address → Prop) (source target : Address) (p : Packet) :
    Prop :=
  if p.hasFlag .ack then closed target source else closed source target

/-- A datagram that holds a packet, and if that is a FIN, there was a close. -/
def Datagram.Tells (closed : Address → Address → Prop) (d : Datagram) : Prop :=
  ∃ p : Packet, d.bytes = p.encode ∧ (p.kind = .fin → p.GoesBack closed d.source d.target)

/-- The answer to a FIN on the wire goes back to the close that the FIN goes back to. -/
theorem Datagram.Tells.goesBack {closed : Address → Address → Prop} {d : Datagram}
    (hd : d.Tells closed) {node : Node} (hvalid : node.endPoint.config.Valid)
    (haddress : node.address = d.target) {target : Address} {p : Packet}
    (hends : node.endPoint.Ends target (.datagram d.source (node.received d.bytes)) p) :
    p.GoesBack closed node.address target := by
  obtain ⟨q, hbytes, hfin⟩ := hd
  cases hends with
  | reply hdecode hk hack hp =>
      rw [hbytes, Node.received_encode hvalid, Packet.decode_encode] at hdecode
      cases hdecode
      have hback := hfin hk
      rw [Packet.GoesBack, if_neg (Bool.eq_false_iff.mp hack)] at hback
      rw [Packet.GoesBack, if_pos hp, haddress]
      exact hback

theorem Node.transmit_frame (n : Node) (size : Nat) :
    (n.transmit size).1.endPoint.config = n.endPoint.config ∧
      (n.transmit size).1.endPoint.connections = n.endPoint.connections := by
  unfold Node.transmit
  split
  · exact ⟨rfl, rfl⟩
  · exact ⟨rfl, rfl⟩

namespace Network

/-- What all commands keep, if `closed` tells which address has closed its connection to which
other one so far. -/
structure Orderly (addresses : List Address) (closed : Address → Address → Prop) (net : Network) :
    Prop where
  addresses : net.nodes.map Node.address = addresses
  proper : ∀ node ∈ net.nodes, node.endPoint.Proper
  tells : ∀ d ∈ net.wire, d.Tells closed

section Orderly

variable {addresses : List Address} {closed : Address → Address → Prop} {net : Network}
  {i : Nat} {own : Address}

theorem Orderly.mono {closed' : Address → Address → Prop} (h : net.Orderly addresses closed)
    (himp : ∀ own peer, closed own peer → closed' own peer) : net.Orderly addresses closed' := by
  refine ⟨h.addresses, h.proper, fun d hd => ?_⟩
  obtain ⟨p, hbytes, hfin⟩ := h.tells d hd
  refine ⟨p, hbytes, fun hk => ?_⟩
  have hback := hfin hk
  rw [Packet.GoesBack] at hback ⊢
  split
  · next hack => exact himp _ _ (by rwa [if_pos hack] at hback)
  · next hack => exact himp _ _ (by rwa [if_neg hack] at hback)

theorem Orderly.address_of_getElem? (h : net.Orderly addresses closed) {node : Node}
    (hn : net.nodes[i]? = some node) : addresses[i]? = some node.address := by
  rw [← h.addresses, List.getElem?_map, hn]
  rfl

theorem Orderly.proper_of_getElem? (h : net.Orderly addresses closed) {node : Node}
    (hn : net.nodes[i]? = some node) : node.endPoint.Proper :=
  h.proper node (List.mem_of_getElem? hn)

theorem Orderly.with_wire (h : net.Orderly addresses closed) {wire : List Datagram}
    (hwire : ∀ d ∈ wire, d.Tells closed) : { net with wire }.Orderly addresses closed :=
  ⟨h.addresses, h.proper, hwire⟩

theorem Orderly.with_now (h : net.Orderly addresses closed) (now : Instant) :
    { net with now }.Orderly addresses closed :=
  ⟨h.addresses, h.proper, h.tells⟩

theorem Orderly.modifyNode (h : net.Orderly addresses closed) {f : Node → Node}
    (haddress : ∀ node, net.nodes[i]? = some node → (f node).address = node.address)
    (hproper : ∀ node, net.nodes[i]? = some node → (f node).endPoint.Proper) :
    (net.modifyNode i f).Orderly addresses closed := by
  refine ⟨?_, fun node hm => ?_, h.tells⟩
  · rw [← h.addresses]
    refine List.ext_getElem? fun j => ?_
    simp only [Network.modifyNode, List.getElem?_map, List.getElem?_modify]
    cases hn : net.nodes[j]? with
    | none => rfl
    | some node =>
        split
        · next heq => exact congrArg some (haddress node (heq ▸ hn))
        · rfl
  · obtain ⟨j, hj⟩ := List.mem_iff_getElem?.mp hm
    simp only [Network.modifyNode, List.getElem?_modify] at hj
    cases hn : net.nodes[j]? with
    | none =>
        rw [hn] at hj
        cases hj
    | some old =>
        rw [hn] at hj
        cases hj
        split
        · next heq => exact hproper old (heq ▸ hn)
        · exact h.proper_of_getElem? hn

theorem Orderly.touch (h : net.Orderly addresses closed) {f : Node → Node}
    (hf : ∀ node, net.nodes[i]? = some node →
      (f node).endPoint.config = node.endPoint.config ∧
        (f node).endPoint.connections = node.endPoint.connections) :
    (net.modifyNode i f).Orderly addresses closed := by
  refine h.modifyNode (fun node hn => ?_) (fun node hn => ?_)
  · rw [Node.address, (hf node hn).1, Node.address]
  · obtain ⟨hvalid, htracks⟩ := h.proper_of_getElem? hn
    refine ⟨?_, ?_⟩
    · rwa [(hf node hn).1]
    · rwa [(hf node hn).2]

/-! ### Effects -/

theorem Orderly.perform (h : net.Orderly addresses closed) (hown : addresses[i]? = some own)
    {effect : Effect} (hfin : ∀ (target : Address) (p : Packet), effect = .transmit target p →
      p.kind = .fin → p.GoesBack closed own target) :
    (net.perform i effect).1.Orderly addresses closed := by
  unfold Network.perform
  split
  · exact h
  · next node hn =>
      cases effect with
      | dispatch => exact h
      | transmit target p =>
          have hcounted : (net.modifyNode i fun _ => (node.transmit p.encode.length).1).Orderly
              addresses closed := by
            refine h.touch fun node' hn' => ?_
            cases hn.symm.trans hn'
            exact node.transmit_frame _
          have haddress : node.address = own :=
            Option.some.inj ((h.address_of_getElem? hn).symm.trans hown)
          simp only [Network.transmit]
          split
          · refine hcounted.with_wire fun d hm => ?_
            rcases List.mem_append.mp hm with hm | hm
            · exact h.tells d hm
            · cases List.mem_singleton.mp hm
              refine ⟨p, rfl, fun hk => ?_⟩
              rw [haddress]
              exact hfin target p rfl hk
          · exact hcounted

theorem Orderly.performAll (hown : addresses[i]? = some own) (effects : List Effect)
    (hfin : ∀ target p, .transmit target p ∈ effects → p.kind = .fin →
      p.GoesBack closed own target) (h : net.Orderly addresses closed) :
    (net.performAll i effects).1.Orderly addresses closed := by
  induction effects generalizing net with
  | nil => exact h
  | cons effect rest ih =>
      refine ih (fun target p hm => hfin target p (List.mem_cons_of_mem _ hm)) ?_
      refine h.perform hown fun target p heq => ?_
      exact hfin target p (heq ▸ List.mem_cons_self)

/-! ### Inputs -/

theorem Orderly.act (h : net.Orderly addresses closed) {input : Input}
    (hends : ∀ node, net.nodes[i]? = some node → ∀ target p, node.endPoint.Ends target input p →
      p.GoesBack closed node.address target) :
    (net.act i input).2.1.Orderly addresses closed := by
  unfold Network.act
  split
  · exact h
  · next node hn =>
      obtain ⟨hproper, hfins⟩ := (h.proper_of_getElem? hn).step net.now input
      have hmid : (net.modifyNode i fun n =>
          { n with endPoint := (node.endPoint.step net.now input).endPoint }).Orderly
          addresses closed := by
        refine h.modifyNode (fun node' hn' => ?_) (fun _ _ => hproper)
        cases hn.symm.trans hn'
        exact congrArg EndPointConfig.selfAddress (EndPoint.config_step _ _ _)
      refine hmid.performAll (h.address_of_getElem? hn) _ fun target p hm hk => ?_
      exact hends node hn target p (hfins target p hm hk)

theorem Orderly.act_of_no_end (h : net.Orderly addresses closed) {input : Input}
    (hends : ∀ e target p, ¬ EndPoint.Ends e target input p) :
    (net.act i input).2.1.Orderly addresses closed :=
  h.act fun _ _ target p he => absurd he (hends _ target p)

theorem address_of_nodeAt? {net : Network} {address : Address} {node : Node}
    (hi : net.nodeAt? address = some i) (hn : net.nodes[i]? = some node) :
    node.address = address := by
  obtain ⟨hlt, hbeq, -⟩ := List.findIdx?_eq_some_iff_getElem.mp hi
  rw [List.getElem?_eq_getElem hlt] at hn
  cases hn
  exact eq_of_beq hbeq

theorem Orderly.handOver (h : net.Orderly addresses closed) {d : Datagram}
    (hd : d.Tells closed) : (net.handOver d).1.Orderly addresses closed := by
  unfold Network.handOver
  split
  · exact h
  · next i hi =>
      unfold Network.receive
      split
      · exact h
      · next node hn =>
          split
          · have hact : (net.act i (.datagram d.source (node.received d.bytes))).2.1.Orderly
                addresses closed := by
              refine h.act fun node' hn' target p hends => ?_
              cases hn.symm.trans hn'
              exact hd.goesBack (h.proper_of_getElem? hn).valid
                (address_of_nodeAt? hi hn) hends
            refine hact.touch fun node _ => ?_
            rw [node.endPoint_afterReceive]
            exact ⟨rfl, rfl⟩
          · exact h

/-! ### The wire and the clock -/

theorem Orderly.deliver (h : net.Orderly addresses closed) (index : Nat) {handling : Handling}
    (hflip : handling.flip = none) (hcut : handling.cut = none) :
    (net.deliver index handling).2.1.Orderly addresses closed := by
  simp only [Network.deliver]
  split
  · exact h
  · next d hd =>
      have hrest : (if handling.keep then net
          else { net with wire := net.wire.eraseIdx (index % net.wire.length) }).Orderly
          addresses closed := by
        split
        · exact h
        · exact h.with_wire fun d hm => h.tells d (List.mem_of_mem_eraseIdx hm)
      split
      · exact hrest
      · have hwhole : handling.apply d.bytes = d.bytes := by
          rw [Handling.apply, hflip, hcut]
        rw [hwhole]
        exact hrest.handOver (h.tells d (List.mem_of_getElem? hd))

theorem Orderly.deliverAll (limit : Nat) (h : net.Orderly addresses closed) :
    (net.deliverAll limit).2.1.Orderly addresses closed := by
  induction limit generalizing net with
  | zero => exact h
  | succ limit ih =>
      unfold Network.deliverAll
      split
      · exact h
      · next d rest hwire =>
          have hmem : ∀ d' ∈ d :: rest, d'.Tells closed := hwire ▸ h.tells
          obtain ⟨hd, hrest⟩ := List.forall_mem_cons.mp hmem
          exact ih ((h.with_wire hrest).handOver hd)

theorem Orderly.scanAt (h : net.Orderly addresses closed) (due : Instant × Nat) :
    (net.scanAt due).1.Orderly addresses closed := by
  have hlater := h.with_now due.1
  simp only [Network.scanAt]
  split
  · exact hlater
  · split
    · exact hlater.act_of_no_end fun _ _ _ hends => by cases hends
    · exact hlater

theorem Orderly.scanAll (dues : List (Instant × Nat)) (h : net.Orderly addresses closed) :
    (net.scanAll dues).1.Orderly addresses closed := by
  induction dues generalizing net with
  | nil => exact h
  | cons due rest ih => exact ih (h.scanAt due)

end Orderly

/-! ## Runs -/

def after (net : Network) (commands : List Command) : Network :=
  commands.foldl (fun net command => (net.run command).2.1) net

def engineAt (net : Network) (i : Nat) (peer : Address) : Option Engine :=
  net.nodes[i]?.bind (·.endPoint.connections.find? peer)

/-- Whether the receive loop of a node runs. -/
def receivesAt (net : Network) (i : Nat) : Bool := net.nodes[i]?.any (·.receiving)

/-- Whether the end point at `own` had a connection to `peer` and closed it in the course of some
commands. -/
def ClosedBy (net : Network) (commands : List Command) (own peer : Address) : Prop :=
  ∃ i before rest, commands = before ++ .close i peer :: rest ∧
    (net.nodes.map Node.address)[i]? = some own ∧ ((net.after before).engineAt i peer).isSome

end Network

/-- A command that brings nothing on the wire but what end points send: no datagram comes from
outside, and none is damaged. -/
def Command.isFaithful : Command → Bool
  | .datagram .. => false
  | .deliver _ handling => handling.flip.isNone && handling.cut.isNone
  | _ => true

namespace Network

section Orderly

variable {addresses : List Address} {closed : Address → Address → Prop} {net : Network}

theorem Orderly.run (h : net.Orderly addresses closed) {command : Command}
    (hfaithful : command.isFaithful = true)
    (hclose : ∀ i peer own, command = .close i peer → addresses[i]? = some own →
      (net.engineAt i peer).isSome → closed own peer) :
    (net.run command).2.1.Orderly addresses closed := by
  cases command with
  | connect i peer => exact h.act_of_no_end fun _ _ _ hends => by cases hends
  | send i peer payload => exact h.act_of_no_end fun _ _ _ hends => by cases hends
  | close i peer =>
      refine h.act fun node hn target p hends => ?_
      cases hends with
      | close hf hp =>
          rw [Packet.GoesBack, if_neg (Bool.eq_false_iff.mp hp)]
          refine hclose i peer node.address rfl (h.address_of_getElem? hn) ?_
          rw [engineAt, hn, Option.bind_some, hf, Option.isSome_some]
  | datagram => cases hfaithful
  | receiveError => exact h
  | deliver index handling =>
      obtain ⟨hflip, hcut⟩ := (Bool.and_eq_true _ _).mp hfaithful
      exact h.deliver index (Option.isNone_iff_eq_none.mp hflip) (Option.isNone_iff_eq_none.mp hcut)
  | deliverAll limit => exact h.deliverAll limit
  | advance span => exact (h.scanAll _).with_now _
  | failSends => exact h.touch fun _ _ => ⟨rfl, rfl⟩
  | shortSends => exact h.touch fun _ _ => ⟨rfl, rfl⟩
  | localAddress => exact h
  | connection => exact h
  | dropReceiver => exact h.touch fun _ _ => ⟨rfl, rfl⟩
  | shutDown => exact h.touch fun _ _ => ⟨rfl, rfl⟩
  | spawn => exact h

theorem after_concat (net : Network) (commands : List Command) (command : Command) :
    net.after (commands ++ [command]) = ((net.after commands).run command).2.1 :=
  List.foldl_append ..

/-- Induction over the commands, the last one taken off: what was closed before stays so, and a
close of a connection is the only command that closes another one. -/
theorem orderly_after {start : Network}
    (h : start.Orderly (start.nodes.map Node.address) fun _ _ => False) (commands : List Command)
    (hfaithful : ∀ command ∈ commands, command.isFaithful = true) :
    (start.after commands).Orderly (start.nodes.map Node.address) (start.ClosedBy commands) := by
  induction commands using List.reverseRecOn with
  | nil => exact h.mono fun _ _ hfalse => hfalse.elim
  | append_singleton front command ih =>
      have hfront := ih fun c hm => hfaithful c (List.mem_append_left _ hm)
      rw [after_concat]
      refine (hfront.mono ?_).run
        (hfaithful command (List.mem_append_right _ List.mem_cons_self)) ?_
      · rintro own peer ⟨i, before, rest, rfl, hown, hsome⟩
        exact ⟨i, before, rest ++ [command], by rw [List.append_assoc, List.cons_append], hown,
          hsome⟩
      · rintro i peer own rfl hown hsome
        exact ⟨i, front, [], rfl, hown, hsome⟩

end Orderly

/-! ## What is done to a connection -/

section EngineAt

variable {net : Network} {i j : Nat} {peer : Address}

theorem engineAt_modifyNode (net : Network) (i j : Nat) (f : Node → Node) (peer : Address) :
    (net.modifyNode i f).engineAt j peer =
      if i = j then net.nodes[j]?.bind fun node => (f node).endPoint.connections.find? peer
      else net.engineAt j peer := by
  simp only [engineAt, Network.modifyNode, List.getElem?_modify]
  cases net.nodes[j]? with
  | none =>
      split
      · rfl
      · rfl
  | some node =>
      split
      · rfl
      · rfl

theorem engineAt_touch {f : Node → Node} (hf : ∀ node, net.nodes[i]? = some node →
    (f node).endPoint.connections = node.endPoint.connections) :
    (net.modifyNode i f).engineAt j peer = net.engineAt j peer := by
  rw [engineAt_modifyNode]
  split
  · next heq =>
      cases heq
      rw [engineAt]
      cases hn : net.nodes[i]? with
      | none => rfl
      | some node => rw [Option.bind_some, Option.bind_some, hf node hn]
  · rfl

theorem engineAt_perform (net : Network) (effect : Effect) :
    (net.perform i effect).1.engineAt j peer = net.engineAt j peer := by
  unfold Network.perform
  split
  · rfl
  · next node hn =>
      cases effect with
      | dispatch => rfl
      | transmit target p =>
          have hcounted : (net.modifyNode i fun _ =>
              (node.transmit p.encode.length).1).engineAt j peer = net.engineAt j peer := by
            refine engineAt_touch fun node' hn' => ?_
            cases hn.symm.trans hn'
            exact (node.transmit_frame _).2
          simp only [Network.transmit]
          split
          · exact hcounted
          · exact hcounted

theorem engineAt_performAll (net : Network) (effects : List Effect) :
    (net.performAll i effects).1.engineAt j peer = net.engineAt j peer := by
  induction effects generalizing net with
  | nil => rfl
  | cons effect rest ih => exact (ih _).trans (engineAt_perform net effect)

theorem engineAt_act {node : Node} (hn : net.nodes[i]? = some node) (input : Input) :
    (net.act i input).2.1.engineAt j peer =
      if i = j then (node.endPoint.step net.now input).endPoint.connections.find? peer
      else net.engineAt j peer := by
  simp only [Network.act, hn]
  rw [engineAt_performAll, engineAt_modifyNode]
  split
  · next heq =>
      cases heq
      rw [hn, Option.bind_some]
  · rfl

theorem engineAt_close (net : Network) (i : Nat) (peer : Address) :
    (net.run (.close i peer)).2.1.engineAt i peer = none := by
  show (net.act i (.close peer)).2.1.engineAt i peer = none
  cases hn : net.nodes[i]? with
  | none =>
      simp only [Network.act, hn]
      rw [engineAt, hn, Option.bind_none]
  | some node =>
      rw [engineAt_act hn, if_pos rfl, EndPoint.step, EndPoint.close]
      split
      · next hnone => exact hnone
      · exact Connections.find?_erase_self _ _

/-- A FIN|ACK makes its receiver drop the connection to the sender, and do nothing else. -/
theorem handOver_finAck {d : Datagram} {node : Node} (hi : net.nodeAt? d.target = some i)
    (hn : net.nodes[i]? = some node) (hvalid : node.endPoint.config.Valid) {p : Packet}
    (hbytes : d.bytes = p.encode) (hkind : p.kind = .fin) (hack : p.hasFlag .ack = true) :
    (net.handOver d).2 = [] ∧ ∀ j peer, (net.handOver d).1.engineAt j peer =
      if j = i ∧ peer = d.source ∧ node.receiving = true then none
      else net.engineAt j peer := by
  simp only [Network.handOver, hi, Network.receive, hn]
  cases hrec : node.receiving with
  | false => simp
  | true =>
      rw [hbytes, Node.received_encode hvalid]
      have hstep : node.endPoint.step net.now (.datagram d.source p.encode) =
          ⟨.done, EndPoint.drop { node.endPoint with
            traffic := node.endPoint.traffic.countIn p.encode.length } d.source, []⟩ := by
        simp only [EndPoint.step, EndPoint.onDatagram, Packet.decode_encode, EndPoint.onPacket,
          hkind, EndPoint.onFin, EndPoint.finReply, hack, if_true]
      refine ⟨by simp only [if_true, Network.act, hn, hstep, Network.performAll], fun j peer => ?_⟩
      simp only [if_true]
      rw [engineAt_touch fun node _ => by rw [node.endPoint_afterReceive], engineAt_act hn, hstep]
      by_cases hij : i = j
      · subst hij
        by_cases hpeer : peer = d.source
        · rw [if_pos rfl, if_pos ⟨rfl, hpeer, trivial⟩, hpeer]
          exact Connections.find?_erase_self _ _
        · rw [if_pos rfl, if_neg fun hall => hpeer hall.2.1, engineAt, hn, Option.bind_some]
          exact Connections.find?_erase_of_ne hpeer
      · rw [if_neg hij, if_neg fun hall => hij hall.1.symm]

end EngineAt

end Network

/-! ## Main result -/

/-- An end point that was just made, with its loops. -/
def Node.IsFresh (node : Node) : Prop :=
  ∃ config e hasLocalAddress, EndPoint.new config = .ok e ∧ node = .start e hasLocalAddress

/-- Fresh end points with different addresses, and nothing on the wire. -/
structure Network.IsFresh (net : Network) : Prop where
  nodes : ∀ node ∈ net.nodes, node.IsFresh
  distinct : (net.nodes.map Node.address).Nodup
  wire : net.wire = []

theorem Pair.isFresh_start (S : Pair) : S.start.IsFresh := by
  refine ⟨fun node hm => ?_, ?_, rfl⟩
  · rcases List.mem_cons.mp hm with rfl | hm
    · exact ⟨_, _, true, S.endPoint_new .left, rfl⟩
    · cases List.mem_singleton.mp hm
      exact ⟨_, _, true, S.endPoint_new .right, rfl⟩
  · exact List.nodup_cons.mpr ⟨fun hm => S.apart (List.mem_singleton.mp hm),
      List.pairwise_singleton _ _⟩

namespace Network

theorem IsFresh.orderly {net : Network} (h : net.IsFresh) :
    net.Orderly (net.nodes.map Node.address) fun _ _ => False := by
  refine ⟨rfl, fun node hm => ?_, fun d hd => ?_⟩
  · obtain ⟨config, e, hasLocalAddress, hnew, rfl⟩ := h.nodes node hm
    obtain ⟨hvalid, rfl⟩ := EndPoint.eq_of_new hnew
    exact ⟨hvalid, List.forall_mem_nil _⟩
  · rw [h.wire] at hd
    cases hd

theorem nodeAt?_of_distinct {net : Network} (h : (net.nodes.map Node.address).Nodup) {i : Nat}
    {node : Node} (hn : net.nodes[i]? = some node) : net.nodeAt? node.address = some i := by
  obtain ⟨hlt, rfl⟩ := List.getElem?_eq_some_iff.mp hn
  refine List.findIdx?_eq_some_iff_getElem.mpr ⟨hlt, beq_self_eq_true _, fun j hji heq => ?_⟩
  have hsame : (net.nodes.map Node.address)[j]? = (net.nodes.map Node.address)[i]? := by
    rw [List.getElem?_map, List.getElem?_map, hn, List.getElem?_eq_getElem (Nat.lt_trans hji hlt)]
    exact congrArg some (eq_of_beq heq)
  have hlen : j < (net.nodes.map Node.address).length := by
    rw [List.length_map]
    omega
  exact Nat.ne_of_lt hji ((List.getElem?_inj hlen h).mp hsame)

/-- A FIN|ACK that is delivered goes back to a close by its receiver, which left no connection, so
whatever connection there is now was opened later.  Where the receive loop runs, the FIN|ACK
removes it. -/
theorem finAck_removes_newer {start : Network} (hstart : start.IsFresh) {commands : List Command}
    (hfaithful : ∀ command ∈ commands, command.isFaithful = true) {net : Network}
    (hnet : start.after commands = net) {index : Nat} {d : Datagram}
    (hd : net.wire[index % net.wire.length]? = some d) {p : Packet} (hbytes : d.bytes = p.encode)
    (hkind : p.kind = .fin) (hack : p.hasFlag .ack = true) (keep : Bool) :
    ∃ i, net.nodeAt? d.target = some i ∧
      (∃ before rest, commands = before ++ .close i d.source :: rest ∧
        ((start.after before).engineAt i d.source).isSome ∧
        (start.after (before ++ [.close i d.source])).engineAt i d.source = none) ∧
      (net.deliver index { keep }).2.2 = [] ∧
      ∀ j peer, (net.deliver index { keep }).2.1.engineAt j peer =
        if j = i ∧ peer = d.source ∧ net.receivesAt i = true then none
        else net.engineAt j peer := by
  have horderly := orderly_after hstart.orderly commands hfaithful
  rw [hnet] at horderly
  obtain ⟨q, hq, hfin⟩ := horderly.tells d (List.mem_of_getElem? hd)
  -- the wire tells of some packet with these bytes, and bytes decode to one packet only
  obtain rfl : q = p := by
    have hdecode := q.decode_encode
    rw [← hq, hbytes, p.decode_encode] at hdecode
    exact (Except.ok.inj hdecode).symm
  have hback := hfin hkind
  rw [Packet.GoesBack, if_pos hack] at hback
  obtain ⟨i, before, rest, hcommands, hown, hsome⟩ := hback
  rw [← horderly.addresses, List.getElem?_map] at hown
  obtain ⟨node, hn, haddress⟩ := Option.map_eq_some_iff.mp hown
  have hi : net.nodeAt? d.target = some i := by
    rw [← haddress]
    exact nodeAt?_of_distinct (horderly.addresses ▸ hstart.distinct) hn
  have hreceives : net.receivesAt i = node.receiving := by
    rw [receivesAt, hn]
    rfl
  have hvalid := (horderly.proper_of_getElem? hn).valid
  refine ⟨i, hi, ⟨before, rest, hcommands, hsome, ?_⟩, ?_⟩
  · rw [after_concat, engineAt_close]
  · rw [hreceives]
    simp only [Network.deliver, hd]
    cases keep with
    | false =>
        exact @handOver_finAck { net with wire := net.wire.eraseIdx (index % net.wire.length) } i d
          node hi hn hvalid q hbytes hkind hack
    | true => exact handOver_finAck hi hn hvalid hbytes hkind hack

/-- The left side sends, closes and sends again before its FIN arrives. -/
def sentAgain : List Command :=
  [.send 0 ⟨.v4 127 0 0 1, 2⟩ [7], .close 0 ⟨.v4 127 0 0 1, 2⟩, .send 0 ⟨.v4 127 0 0 1, 2⟩ [8],
    .deliver 1 {}]

/-- The reply to the FIN takes the new connection away. -/
theorem finAck_removes_sentAgain :
    let net := Pair.neighbours.start.after sentAgain
    (net.engineAt 0 ⟨.v4 127 0 0 1, 2⟩).isSome ∧
      (net.deliver 2 {}).2.1.engineAt 0 ⟨.v4 127 0 0 1, 2⟩ = none := by
  let net := Pair.neighbours.start.after sentAgain
  have hd : net.wire[2 % net.wire.length]? =
      some ⟨⟨.v4 127 0 0 1, 2⟩, ⟨.v4 127 0 0 1, 1⟩, (Packet.finAck .zero (.nth 2)).encode⟩ := by
    decide +kernel
  obtain ⟨i, hi, -, -, hengine⟩ := finAck_removes_newer Pair.neighbours.isFresh_start
    (by decide) rfl hd rfl rfl (Packet.hasFlag_finAck _ _) false
  obtain rfl : i = 0 := by
    have hnode : net.nodeAt? ⟨.v4 127 0 0 1, 1⟩ = some 0 := by decide +kernel
    exact Option.some.inj (hi.symm.trans hnode)
  have hreceives : net.receivesAt 0 = true := by decide +kernel
  refine ⟨by decide +kernel, ?_⟩
  rw [hengine, if_pos ⟨rfl, rfl, hreceives⟩]

end Network

end ReliableDatagram
