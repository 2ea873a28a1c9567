/-
No state of the data phase is stuck.

Once time has gone by for longer than its timeout and its interval, a side has
sent again whatever it has in flight.  When these copies arrive from the
lowest number on, the receiver takes each of them, since all lower numbers have
arrived by then; so a full buffer refuses none.  The acknowledgements then
leave nothing in flight.

All this needs a receiver that can have an engine, and buffers for datagrams on
both sides.  There are settings that pass every check and yet have neither;
with them no state is settled in which something was sent.

A state is settled if the other application has been handed everything and nothing
is in flight any more.  Which datagrams are on the wire besides, and in which
order they arrive later, makes no difference.

The proof goes through the list of positions that the receiver still waits for.
It is the list of what is in flight, less what has arrived and was not seen
acknowledged; so the copies are a list that begins with positions that were handed
on already, which are acknowledged once more, and goes on with the ones awaited.
Both inductions are on that list, one over the copies and one over their
acknowledgements, and each comes in two forms: however they arrive, the state
afterwards is this, and there is a way for them to arrive.

The acknowledgements may arrive in any order.  The copies may not: a receiver
whose buffer is full refuses a packet beyond it, and the copy of that is gone.
-/
import ReliableDatagram.Proofs.Network.ExactlyOnce

namespace ReliableDatagram

namespace Pair

def timeout (S : Pair) (net : Network) (s : Side) : Duration :=
  ((net.engine? s.index (S.address s.other)).map (·.stats.timeout)).getD ⟨0⟩

/-- The packets that a side has in flight, from the lowest number on. -/
def inFlight (S : Pair) (net : Network) (log : Log) (s : Side) : List Packet :=
  ((log.filterMap (·.accepted? s)).filter fun sent => S.tracks net s sent.1).map fun sent =>
    .data sent.1 sent.2

def copies (S : Pair) (s : Side) (packets : List Packet) : List Datagram :=
  packets.map fun p => S.datagram (s, p)

/-- The other side's acknowledgements for some packets. -/
def acks (S : Pair) (s : Side) (packets : List Packet) : List Datagram :=
  packets.map fun p => S.datagram (s.other, .acknowledge p.seq.next)

/-- Datagrams arrive intact one after the other, each from any place of the wire. -/
inductive Arrive (S : Pair) : Network → Log → List Datagram → Network → Log → Prop
  | nil {net : Network} {log : Log} : Arrive S net log [] net log
  | cons {net net' : Network} {log log' : Log} {i : Nat} {d : Datagram} {rest : List Datagram} :
      net.wire[i]? = some d →
      Arrive S (S.play net (.deliver i .none)).2.1 (S.record net log (.deliver i .none)) rest
        net' log' →
      Arrive S net log (d :: rest) net' log'

/-- Whether what a side sends can be taken and acknowledged. -/
structure Recovers (S : Pair) (s : Side) : Prop where
  hears : S.Handles s .ack
  serves : S.Serves s.other

/-- All that a side sent was dispatched, and nothing of it is in flight. -/
def Settled (S : Pair) (net : Network) (log : Log) (s : Side) : Prop :=
  log.dispatched s.other = log.accepted s ∧ S.unackedCount net s = 0

section Recovery

variable {S : Pair} {net net' : Network} {log log' : Log} {x : Exchange} {s : Side}

/-! ## Datagrams on the wire -/

theorem datagram_inj {m m' : Side × Packet} : S.datagram m = S.datagram m' ↔ m = m' := by
  refine ⟨fun h => ?_, fun h => by rw [h]⟩
  obtain ⟨t, p⟩ := m
  obtain ⟨t', p'⟩ := m'
  obtain ⟨hsource, -, hbytes⟩ := Datagram.mk.inj h
  have hside : t = t' := by
    rcases t.eq_or_eq_other t' with heq | rfl
    · exact heq
    · exact absurd hsource.symm (S.address_ne t')
  have hpacket : p = p' := by
    have := congrArg Packet.decode hbytes
    rw [Packet.decode_encode, Packet.decode_encode] at this
    exact Except.ok.inj this
  rw [hside, hpacket]

theorem Stands.getElem?_datagram (h : S.Stands net x) {i : Nat} {m : Side × Packet} :
    net.wire[i]? = some (S.datagram m) ↔ x.wire[i]? = some m := by
  rw [h.getElem?_wire]
  constructor
  · rintro ⟨m', hm', heq⟩
    rwa [datagram_inj.mp heq] at hm'
  · exact fun hm => ⟨m, hm, rfl⟩

theorem Stands.exists_getElem? (h : S.Stands net x) {m : Side × Packet} (hm : m ∈ x.wire) :
    ∃ i : Nat, net.wire[i]? = some (S.datagram m) := by
  obtain ⟨i, hi⟩ := List.mem_iff_getElem?.mp hm
  exact ⟨i, h.getElem?_datagram.mpr hi⟩

theorem mem_wire_without {i : Nat} {m m' : Side × Packet} (hi : x.wire[i]? = some m')
    (hm : m ∈ x.wire) (hne : m ≠ m') : m ∈ (x.without i).wire := by
  obtain ⟨j, hj⟩ := List.mem_iff_getElem?.mp hm
  refine List.mem_eraseIdx_iff_getElem?.mpr ⟨j, ?_, hj⟩
  rintro rfl
  rw [hi] at hj
  exact hne (Option.some.inj hj).symm

/-! ## One arrival -/

/-- The lowest copy to come arrives.  It is acknowledged, and its sender is as it was. -/
theorem Shows.deliver_copy (h : S.Shows net log x) (hx : x.Sound S.Handles) (hn : x.Bounded)
    (hserve : S.Serves s.other) {k : Nat} {rest : List Nat} (ha : x.Awaits s (k :: rest))
    (hlow : ∀ j ∈ rest, k < j) {p : Packet} (hc : p.Carries (x.sent s) k) {i : Nat}
    (hi : net.wire[i]? = some (S.datagram (s, p))) :
    ∃ x', S.Shows (S.play net (.deliver i .none)).2.1 (S.record net log (.deliver i .none)) x' ∧
      x'.Sound S.Handles ∧ x'.Awaits s rest ∧ x'.sent = x.sent ∧ x'.engine s = x.engine s ∧
      (∀ m ∈ x.wire, m ≠ (s, p) → m ∈ x'.wire) ∧
      (s.other, Packet.acknowledge p.seq.next) ∈ x'.wire ∧
      (S.record net log (.deliver i .none)).transmitted s.other =
        log.transmitted s.other ++ [(Packet.acknowledge p.seq.next).encode] := by
  rw [h.stands.getElem?_datagram] at hi
  rcases h.deliver_cases hx.usual hi .none with ⟨-, hdamaged⟩ |
    ⟨l, packets, released, hreact, hs, hsent, -, hable⟩
  · exact absurd rfl (hdamaged hserve)
  · have hk := hc.kind
    obtain ⟨released', l', hok, hawaits⟩ := ha.take (hx.inOrder s) (hn s) hlow hc
    cases hreact with
    | take _ hrec =>
        rw [hok] at hrec
        cases hrec
        have hstep := Exchange.Step.data hi hk (hk ▸ hable) hok
        refine ⟨_, hs, hx.step hn hstep, hawaits i _, rfl, ?_, ?_, ?_, hsent⟩
        · rw [Exchange.engine_handed, Exchange.engine_other_post, Exchange.engine_without]
        · intro m hm hne
          rw [Exchange.wire_handed, Exchange.mem_wire_post]
          exact .inl (mem_wire_without hi hm hne)
        · rw [Exchange.wire_handed, Exchange.mem_wire_post]
          exact .inr ⟨rfl, List.mem_singleton_self _⟩
    | refuse _ hrec =>
        rw [hok] at hrec
        cases hrec
    | ack hk' | syn hk' | synAck hk' =>
        rw [hk] at hk'
        cases hk'

theorem hasFlag_acknowledge (ack : SeqNum) : (Packet.acknowledge ack).hasFlag .ack = true := by
  show Flags.contains .ack .ack = true
  decide

theorem Shows.deliver_ack (h : S.Shows net log x) (hx : x.Sound S.Handles) (hn : x.Bounded)
    (hserve : S.Serves s) {i : Nat} {seq : SeqNum}
    (hi : net.wire[i]? = some (S.datagram (s.other, .acknowledge seq.next))) :
    ∃ x', S.Shows (S.play net (.deliver i .none)).2.1 (S.record net log (.deliver i .none)) x' ∧
      x'.Sound S.Handles ∧ x'.sent = x.sent ∧
      (∀ u ∈ (x'.engine s).tracker.entries,
        u ∈ (x.engine s).tracker.entries ∧ u.packet.seq ≠ seq) ∧
      ∀ m ∈ x.wire, m ≠ (s.other, .acknowledge seq.next) → m ∈ x'.wire := by
  rw [h.stands.getElem?_datagram] at hi
  rcases h.deliver_cases hx.usual hi .none with ⟨-, hdamaged⟩ |
    ⟨l, packets, released, hreact, hs, -, -, hable⟩
  · rw [Side.other_other] at hdamaged
    exact absurd rfl (hdamaged hserve)
  · cases hreact with
    | ack hk =>
        rw [Exchange.handed_nil] at hs
        have hstep := Exchange.Step.ack hi hk hable
        rw [Side.other_other] at hs hstep
        refine ⟨_, hs, hx.step hn hstep, rfl, ?_, ?_⟩
        · intro u hu
          rw [Exchange.engine_post_self] at hu
          have := (LockedEngine.mem_handleAck (hx.inOrder s).sends.sound
            (hasFlag_acknowledge _) x.now).mp hu
          rwa [show (Packet.acknowledge seq.next).ack = seq.next from rfl,
            SeqNum.next_prev] at this
        · intro m hm hne
          rw [Exchange.mem_wire_post]
          exact .inl (mem_wire_without hi hm hne)
    | take hk | refuse hk | syn hk | synAck hk => cases hk

/-! ## Many arrivals -/

theorem Shows.of_arrive_copies (hserve : S.Serves s.other) (f : Nat → Packet) (rest : List Nat) :
    ∀ {net : Network} {log : Log} {x : Exchange}, S.Shows net log x → x.Sound S.Handles →
      x.Bounded → x.Awaits s rest → rest.Pairwise (· < ·) →
      (∀ k ∈ rest, (f k).Carries (x.sent s) k) →
      S.Arrive net log (S.copies s (rest.map f)) net' log' →
      ∃ x', S.Shows net' log' x' ∧ x'.Sound S.Handles ∧ x'.sent = x.sent ∧
        x'.engine s = x.engine s ∧
        (∀ m ∈ x.wire, m.1 = s.other → m ∈ x'.wire) ∧
        (∀ k ∈ rest, (s.other, Packet.acknowledge (f k).seq.next) ∈ x'.wire) ∧
        log'.transmitted s.other =
          log.transmitted s.other ++ (S.acks s (rest.map f)).map (·.bytes) := by
  -- on the copies still to arrive: each arrival leaves the receiver waiting for the rest
  induction rest with
  | nil =>
      intro net log x h hx _ _ _ _ harr
      cases harr
      exact ⟨x, h, hx, rfl, rfl, fun _ hm _ => hm, (fun _ hk => nomatch hk),
        (List.append_nil _).symm⟩
  | cons k rest ih =>
      intro net log x h hx hn ha hsorted hc harr
      obtain ⟨hlow, hsorted⟩ := List.pairwise_cons.mp hsorted
      obtain ⟨hck, hc⟩ := List.forall_mem_cons.mp hc
      cases harr with
      | cons hi harr =>
          obtain ⟨x₁, hs, hx₁, ha₁, hsent, heng, hwire, hack, htrans⟩ :=
            h.deliver_copy hx hn hserve ha hlow hck hi
          obtain ⟨x', hs', hx', hsent', heng', hwire', hacks, htrans'⟩ :=
            ih hs hx₁ (fun t => by rw [hsent]; exact hn t) ha₁ hsorted
              (fun j hj => by rw [hsent]; exact hc j hj) harr
          refine ⟨x', hs', hx', hsent'.trans hsent, heng'.trans heng, fun m hm hside => ?_,
            List.forall_mem_cons.mpr ⟨?_, hacks⟩, ?_⟩
          · refine hwire' m (hwire m hm ?_) hside
            intro heq
            rw [heq] at hside
            exact s.ne_other hside
          · exact hwire' _ hack rfl
          · rw [htrans', htrans, List.append_assoc]
            rfl

theorem Shows.exists_arrive_copies (hserve : S.Serves s.other) (f : Nat → Packet)
    (rest : List Nat) :
    ∀ {net : Network} {log : Log} {x : Exchange}, S.Shows net log x → x.Sound S.Handles →
      x.Bounded → x.Awaits s rest → rest.Pairwise (· < ·) →
      (∀ k ∈ rest, (f k).Carries (x.sent s) k) → (∀ k ∈ rest, (s, f k) ∈ x.wire) →
      ∃ net' log', S.Arrive net log (S.copies s (rest.map f)) net' log' := by
  induction rest with
  | nil => exact fun _ _ _ _ _ _ _ => ⟨_, _, .nil⟩
  | cons k rest ih =>
      intro net log x h hx hn ha hsorted hc hw
      obtain ⟨hlow, hsorted⟩ := List.pairwise_cons.mp hsorted
      obtain ⟨hck, hc⟩ := List.forall_mem_cons.mp hc
      obtain ⟨hwk, hw⟩ := List.forall_mem_cons.mp hw
      obtain ⟨i, hi⟩ := h.stands.exists_getElem? hwk
      obtain ⟨x₁, hs, hx₁, ha₁, hsent, -, hwire, -⟩ := h.deliver_copy hx hn hserve ha hlow hck hi
      obtain ⟨net', log', harr⟩ := ih hs hx₁ (fun t => by rw [hsent]; exact hn t) ha₁ hsorted
        (fun j hj => by rw [hsent]; exact hc j hj) fun j hj => by
          refine hwire _ (hw j hj) ?_
          -- below 2³¹ payloads different positions have different numbers
          intro heq
          have hseq := congrArg (fun m : Side × Packet => m.2.seq) heq
          simp only [(hc j hj).seq, hck.seq] at hseq
          have hlt := hn s
          have hj' := (hc j hj).lt
          have hk' := hck.lt
          rw [SeqNum.nth_inj (by omega) (by omega)] at hseq
          exact Nat.ne_of_gt (hlow j hj) hseq
      exact ⟨net', log', .cons hi harr⟩

theorem Shows.of_arrive_acks (order : List Packet) (hserve : order ≠ [] → S.Serves s) :
    ∀ {net : Network} {log : Log} {x : Exchange}, S.Shows net log x → x.Sound S.Handles →
      x.Bounded → (∀ u ∈ (x.engine s).tracker.entries, ∃ p ∈ order, u.packet.seq = p.seq) →
      S.Arrive net log (S.acks s order) net' log' →
      ∃ x', S.Shows net' log' x' ∧ x'.Sound S.Handles ∧ x'.sent = x.sent ∧
        (x'.engine s).tracker.entries = [] := by
  induction order with
  | nil =>
      intro net log x h hx _ htracked harr
      cases harr
      refine ⟨x, h, hx, rfl, List.eq_nil_iff_forall_not_mem.mpr ?_⟩
      intro u hu
      obtain ⟨p, hp, -⟩ := htracked u hu
      cases hp
  | cons p rest ih =>
      intro net log x h hx hn htracked harr
      cases harr with
      | cons hi harr =>
          obtain ⟨x₁, hs, hx₁, hsent, hmem, -⟩ :=
            h.deliver_ack hx hn (hserve (List.cons_ne_nil _ _)) hi
          obtain ⟨x', hs', hx', hsent', hnil⟩ :=
            ih (fun _ => hserve (List.cons_ne_nil _ _)) hs hx₁
              (fun t => by rw [hsent]; exact hn t) (fun u hu => by
              obtain ⟨hu, hne⟩ := hmem u hu
              obtain ⟨q, hq, hseq⟩ := htracked u hu
              rcases List.mem_cons.mp hq with rfl | hq
              · exact absurd hseq hne
              · exact ⟨q, hq, hseq⟩) harr
          exact ⟨x', hs', hx', hsent'.trans hsent, hnil⟩

theorem Shows.exists_arrive_acks (order : List Packet) (hserve : order ≠ [] → S.Serves s) :
    ∀ {net : Network} {log : Log} {x : Exchange}, S.Shows net log x → x.Sound S.Handles →
      x.Bounded → (order.Pairwise fun p q => p.seq ≠ q.seq) →
      (∀ p ∈ order, (s.other, Packet.acknowledge p.seq.next) ∈ x.wire) →
      ∃ net' log', S.Arrive net log (S.acks s order) net' log' := by
  induction order with
  | nil => exact fun _ _ _ _ _ => ⟨_, _, .nil⟩
  | cons p rest ih =>
      intro net log x h hx hn hdistinct hw
      obtain ⟨hne, hdistinct⟩ := List.pairwise_cons.mp hdistinct
      obtain ⟨hwp, hw⟩ := List.forall_mem_cons.mp hw
      obtain ⟨i, hi⟩ := h.stands.exists_getElem? hwp
      obtain ⟨x₁, hs, hx₁, hsent, -, hwire⟩ :=
        h.deliver_ack hx hn (hserve (List.cons_ne_nil _ _)) hi
      obtain ⟨net', log', harr⟩ := ih (fun _ => hserve (List.cons_ne_nil _ _)) hs hx₁
        (fun t => by rw [hsent]; exact hn t) hdistinct fun q hq => by
          refine hwire _ (hw q hq) ?_
          intro heq
          have hack := congrArg (fun m : Side × Packet => m.2.ack.prev) heq
          simp only [Packet.acknowledge, Packet.new, SeqNum.next_prev] at hack
          exact hne q hq hack.symm
      exact ⟨net', log', .cons hi harr⟩

/-! ## What is in flight -/

/-- The numbers in flight, from the lowest on. -/
def pending (S : Pair) (net : Network) (x : Exchange) (s : Side) : List Nat :=
  (List.range (x.sent s).length).filter fun k => S.tracks net s (.nth k)

theorem pairwise_pending (S : Pair) (net : Network) (x : Exchange) (s : Side) :
    (S.pending net x s).Pairwise (· < ·) :=
  List.pairwise_lt_range.filter _

theorem Shows.mem_pending (h : S.Shows net log x) (ho : x.InOrder s) {k : Nat} :
    k ∈ S.pending net x s ↔ k < (x.sent s).length ∧ (x.engine s).Tracks k := by
  rw [pending, List.mem_filter, List.mem_range, h.stands.tracks ho]

theorem Shows.inFlight_eq (h : S.Shows net log x) (ho : x.InOrder s) :
    S.inFlight net log s = (S.pending net x s).map (x.packet s) := by
  have hpairs : log.filterMap (·.accepted? s) =
      (List.range (x.sent s).length).map fun k => (.nth k, (x.sent s)[k]?.getD []) := by
    have hzip := List.zip_unzip (log.filterMap (·.accepted? s))
    rw [List.unzip_eq_map] at hzip
    rw [← hzip]
    show (log.numbers s).zip (log.accepted s) = _
    rw [h.records.numbers, h.records.accepted, ho.numbers]
    refine List.ext_getElem (by simp) fun k hk _ => ?_
    simp only [List.length_zip, List.length_map, List.length_range, Nat.min_self] at hk
    simp [hk]
  rw [inFlight, hpairs, List.filter_map, List.map_map]
  rfl

theorem Shows.length_inFlight (h : S.Shows net log x) (ho : x.InOrder s)
    (hn : (x.sent s).length < 0x80000000) :
    (S.inFlight net log s).length = S.unackedCount net s := by
  have hperm : ((S.pending net x s).map SeqNum.nth).Perm
      ((x.engine s).tracker.entries.map (·.packet.seq)) := by
    refine (List.perm_ext_iff_of_nodup ?_ ?_).mpr ?_
    · rw [List.Nodup, List.pairwise_map]
      refine (S.pairwise_pending net x s).imp_of_mem fun {j k} hj hk hlt heq => ?_
      have hj' := ((h.mem_pending ho).mp hj).1
      have hk' := ((h.mem_pending ho).mp hk).1
      rw [SeqNum.nth_inj (by omega) (by omega)] at heq
      exact Nat.ne_of_lt hlt heq
    · rw [List.Nodup, List.pairwise_map]
      exact ho.sends.sound.tracker.distinct.imp fun hslot heq => hslot (by rw [heq])
    · intro seq
      simp only [List.mem_map]
      constructor
      · rintro ⟨k, hk, rfl⟩
        exact ((h.mem_pending ho).mp hk).2
      · rintro ⟨u, hu, rfl⟩
        obtain ⟨k, hc⟩ := ho.sends.tracked u hu
        exact ⟨k, (h.mem_pending ho).mpr ⟨hc.lt, u, hu, hc.seq⟩, hc.seq.symm⟩
  have hlen := hperm.length_eq
  rw [List.length_map, List.length_map] at hlen
  rw [h.inFlight_eq ho, List.length_map, hlen, h.stands.unackedCount]
  rfl

theorem Stands.timeout_of_mem (h : S.Stands net x) {u : Unacked}
    (hu : u ∈ (x.engine s).tracker.entries) :
    S.timeout net s = (x.engine s).roundTrip.timeout := by
  rcases h.engine? s with ⟨-, hstart⟩ | ⟨engine, hsome, hf⟩
  · rw [hstart] at hu
    cases hu
  · rw [timeout, hsome, Option.map_some, Option.getD_some, hf.stats]
    rfl

theorem Stands.builds_of_mem (h : S.Stands net x) {u : Unacked}
    (hu : u ∈ (x.engine s).tracker.entries) : (S.config s).Builds := by
  obtain ⟨node, -, hr⟩ := h.nodes s
  rcases hr.keeps.connection with ⟨-, hstart⟩ | ⟨engine, -, -, hb⟩
  · rw [hstart] at hu
    cases hu
  · exact hb

/-! ## Settled states -/

theorem Shows.settled_iff (h : S.Shows net log x) (hx : x.Sound S.Handles) (hn : x.Bounded) :
    S.Settled net log s ↔ (x.engine s).tracker.entries = [] := by
  rw [Settled, h.records.dispatched, h.records.accepted, h.stands.unackedCount]
  constructor
  · exact fun hs => List.eq_nil_of_length_eq_zero hs.2
  · intro hnil
    refine ⟨hx.complete.got_eq (hx.inOrder s) (hn s) hnil, ?_⟩
    rw [Tracker.size, hnil]
    rfl

/-- Without a buffer or an engine where one is needed, something sent is never settled. -/
theorem Shows.not_settled (h : S.Shows net log x) (hx : x.Sound S.Handles)
    (hr : ¬ S.Recovers s) (hne : log.accepted s ≠ []) : ¬ S.Settled net log s := by
  rintro ⟨hdispatched, hzero⟩
  rw [h.records.accepted] at hne
  by_cases hack : S.Handles s .ack
  · have hdata : ¬ S.Handles s.other .data := fun hable => hr ⟨hack, hable.serves rfl⟩
    rw [h.records.dispatched, hx.limited.got _ hdata, h.records.accepted] at hdispatched
    exact hne hdispatched.symm
  · obtain ⟨u, hu, -⟩ := hx.limited.tracked s hack 0 (List.length_pos_iff.mpr hne)
    rw [h.stands.unackedCount] at hzero
    rw [List.eq_nil_of_length_eq_zero hzero] at hu
    cases hu

/-! ## After everything was sent again -/

/-- A state in which copies of all that a side has in flight are on the wire. -/
structure Resent (S : Pair) (net : Network) (log : Log) (x : Exchange) (s : Side)
    (f : Nat → Packet) (rest : List Nat) : Prop where
  shows : S.Shows net log x
  sound : x.Sound S.Handles
  bounded : x.Bounded
  awaits : x.Awaits s rest
  sorted : rest.Pairwise (· < ·)
  carries : ∀ k ∈ rest, (f k).Carries (x.sent s) k
  onWire : ∀ k ∈ rest, (s, f k) ∈ x.wire
  tracked : ∀ u ∈ (x.engine s).tracker.entries, ∃ k ∈ rest, u.packet.seq = (f k).seq
  builds : rest ≠ [] → (S.config s).Builds

/-- A span longer than timeout and interval leads to such a state. -/
theorem Shows.resent (h : S.Shows net log x) (hx : x.Sound S.Handles) (hn : x.Bounded)
    {span : Duration} (hspan : (S.timeout net s).nanos + (S.config s).scanInterval.nanos <
      span.nanos) :
    ∃ x' again, S.Resent (S.play net (.advance span)).2.1 (S.record net log (.advance span)) x' s
        (x.packet s) (S.pending net x s) ∧ x'.sent = x.sent ∧ x'.wire = x.wire ++ again ∧
      ∀ k ∈ S.pending net x s, (s, x.packet s k) ∈ again := by
  obtain ⟨x', hsteps, hs, hsent, htracks, again, hwire, hagain⟩ := h.advance span
  have ho := hx.inOrder s
  have hn' : x'.Bounded := fun t => by rw [hsent]; exact hn t
  have hx' := hx.steps hsteps hn'
  -- what is tracked at a position is the packet of the stream at that position
  have hpacket k (hk : k ∈ S.pending net x s) := by
    obtain ⟨hlt, ht⟩ := (h.mem_pending ho).mp hk
    exact ho.tracked_packet (hn s) hlt ht
  have hcopies : ∀ k ∈ S.pending net x s, (s, x.packet s k) ∈ again := by
    intro k hk
    obtain ⟨-, u, hu, heq⟩ := hpacket k hk
    rw [h.stands.timeout_of_mem hu] at hspan
    rw [← heq]
    exact hagain hx.timely s hspan u hu
  refine ⟨x', again, ⟨hs, hx', hn', fun k hk => ?_, S.pairwise_pending net x s, fun k hk => ?_,
    fun k hk => ?_, fun u hu => ?_, fun hne => ?_⟩, hsent, hwire, hcopies⟩
  · refine (hx'.complete.covers s k hk).imp ?_ id
    intro ht
    rw [hsent] at hk
    exact (h.mem_pending ho).mpr ⟨hk, (htracks s k).mp ht⟩
  · rw [hsent]
    exact (hpacket k hk).1
  · rw [hwire]
    exact List.mem_append_right _ (hcopies k hk)
  · obtain ⟨k, hc⟩ := (hx'.inOrder s).sends.tracked u hu
    have hk : k ∈ S.pending net x s := by
      refine (h.mem_pending ho).mpr ⟨?_, (htracks s k).mp ⟨u, hu, hc.seq⟩⟩
      rw [← hsent]
      exact hc.lt
    exact ⟨k, hk, by rw [hc.seq, (hpacket k hk).1.seq]⟩
  · obtain ⟨k, hk⟩ := List.exists_mem_of_ne_nil _ hne
    obtain ⟨-, u, hu, -⟩ := hpacket k hk
    exact h.stands.builds_of_mem hu

section Resent

variable {f : Nat → Packet} {rest : List Nat}

theorem Resent.settled (h : S.Resent net log x s f rest) (hr : S.Recovers s) {net' : Network}
    {log' : Log} (harr : S.Arrive net log (S.copies s (rest.map f)) net' log') :
    log'.transmitted s.other =
        log.transmitted s.other ++ (S.acks s (rest.map f)).map (·.bytes) ∧
      ∀ order net'' log'', order.Perm (rest.map f) →
        S.Arrive net' log' (S.acks s order) net'' log'' → S.Settled net'' log'' s := by
  obtain ⟨x', hs', hx', hsent', heng, -, -, htrans⟩ := h.shows.of_arrive_copies hr.serves f rest
    h.sound h.bounded h.awaits h.sorted h.carries harr
  refine ⟨htrans, ?_⟩
  intro order net'' log'' hperm harr'
  have hserve : order ≠ [] → S.Serves s := by
    rintro hne
    refine ⟨hr.hears.fits, h.builds ?_⟩
    rintro rfl
    exact hne hperm.eq_nil
  have htracked : ∀ u ∈ (x'.engine s).tracker.entries, ∃ p ∈ order, u.packet.seq = p.seq := by
    intro u hu
    rw [heng] at hu
    obtain ⟨k, hk, hseq⟩ := h.tracked u hu
    exact ⟨f k, hperm.mem_iff.mpr (List.mem_map_of_mem hk), hseq⟩
  have hn' : x'.Bounded := fun t => by rw [hsent']; exact h.bounded t
  obtain ⟨x'', hs'', hx'', hsent'', hnil⟩ := hs'.of_arrive_acks order hserve hx' hn' htracked harr'
  have hn'' : x''.Bounded := fun t => by rw [hsent'']; exact hn' t
  exact (hs''.settled_iff hx'' hn'').mpr hnil

theorem Resent.exists_arrive (h : S.Resent net log x s f rest) (hr : S.Recovers s) :
    ∃ net₁ log₁ net₂ log₂, S.Arrive net log (S.copies s (rest.map f)) net₁ log₁ ∧
      S.Arrive net₁ log₁ (S.acks s (rest.map f)) net₂ log₂ := by
  obtain ⟨net₁, log₁, harr⟩ := h.shows.exists_arrive_copies hr.serves f rest h.sound h.bounded
    h.awaits h.sorted h.carries h.onWire
  obtain ⟨x', hs', hx', hsent', -, -, hacks, -⟩ := h.shows.of_arrive_copies hr.serves f rest
    h.sound h.bounded h.awaits h.sorted h.carries harr
  have hserve : rest.map f ≠ [] → S.Serves s := fun hne =>
    ⟨hr.hears.fits, h.builds fun hnil => hne (by rw [hnil]; rfl)⟩
  have hdistinct : (rest.map f).Pairwise fun p q => p.seq ≠ q.seq := by
    rw [List.pairwise_map]
    refine h.sorted.imp_of_mem fun {j k} hj hk hlt heq => ?_
    have hj' := (h.carries j hj).lt
    have hk' := (h.carries k hk).lt
    have hn := h.bounded s
    rw [(h.carries j hj).seq, (h.carries k hk).seq, SeqNum.nth_inj (by omega) (by omega)] at heq
    exact Nat.ne_of_lt hlt heq
  obtain ⟨net₂, log₂, harr'⟩ := hs'.exists_arrive_acks (rest.map f) hserve hx'
    (fun t => by rw [hsent']; exact h.bounded t) hdistinct (List.forall_mem_map.mpr hacks)
  exact ⟨net₁, log₁, net₂, log₂, harr, harr'⟩

end Resent

/-! ## Arrivals as moves -/

theorem Run.arrive (run : S.Run DataPhase net log) {datagrams : List Datagram}
    (harr : S.Arrive net log datagrams net' log') : S.Run DataPhase net' log' := by
  induction harr with
  | nil => exact run
  | cons _ _ ih => exact ih (.move _ run rfl)

theorem accepted_record {m : Move} (hm : ∀ t payload, m ≠ .send t payload) (t : Side) :
    (S.record net log m).accepted t = log.accepted t := by
  have hnone : Happening.accepted? ⟨m, (S.play net m).1, (S.play net m).2.2⟩ t = none := by
    cases m with
    | send t payload => exact absurd rfl (hm t payload)
    | _ => rfl
  rw [record, Log.accepted_append, hnone]
  exact List.append_nil _

theorem Arrive.accepted {datagrams : List Datagram}
    (harr : S.Arrive net log datagrams net' log') (t : Side) :
    log'.accepted t = log.accepted t := by
  induction harr with
  | nil => rfl
  | cons _ _ ih => rw [ih, accepted_record (by simp)]

end Recovery

/-! ## Main results -/

/-- No state of the data phase is stuck, if the receiver can have an engine and both sides have
a buffer for datagrams. -/
theorem settles_of_dataPhase {S : Pair} {net : Network} {log : Log} (run : S.Run DataPhase net log)
    (hn : ∀ s, (log.accepted s).length < 0x80000000) (s : Side) {span : Duration}
    (hspan : (S.timeout net s).nanos + (S.config s).scanInterval.nanos < span.nanos) :
    let packets := S.inFlight net log s
    let net₁ := (S.play net (.advance span)).2.1
    let log₁ := S.record net log (.advance span)
    packets.length = S.unackedCount net s ∧
      (∃ again, net₁.wire = net.wire ++ again ∧ ∀ d ∈ S.copies s packets, d ∈ again) ∧
      (S.Recovers s → ∀ net₂ log₂, S.Arrive net₁ log₁ (S.copies s packets) net₂ log₂ →
        log₂.transmitted s.other =
          log₁.transmitted s.other ++ (S.acks s packets).map (·.bytes) ∧
        ∀ order net₃ log₃, order.Perm packets → S.Arrive net₂ log₂ (S.acks s order) net₃ log₃ →
          S.Settled net₃ log₃ s) ∧
      (S.Recovers s ∨ log.accepted s = [] ↔ ∃ net₂ log₂ net₃ log₃,
        S.Arrive net₁ log₁ (S.copies s packets) net₂ log₂ ∧
        S.Arrive net₂ log₂ (S.acks s packets) net₃ log₃ ∧ S.Settled net₃ log₃ s) := by
  obtain ⟨x, h, hx⟩ := run.sound hn
  have hb := h.bounded hn
  have ho := hx.inOrder s
  obtain ⟨x₁, again, hres, hsent, hwire, hagain⟩ := h.resent hx hb hspan
  have haccepted t : (S.record net log (.advance span)).accepted t = log.accepted t :=
    accepted_record (by simp) t
  intro packets net₁ log₁
  have hpackets : packets = (S.pending net x s).map (x.packet s) := h.inFlight_eq ho
  refine ⟨h.length_inFlight ho (hb s), ⟨again.map S.datagram, ?_, ?_⟩, ?_, ?_, ?_⟩
  · rw [hres.shows.stands.wire, hwire, List.map_append, ← h.stands.wire]
  · rw [hpackets, copies, List.map_map]
    exact List.forall_mem_map.mpr fun k hk => List.mem_map_of_mem (hagain k hk)
  · rw [hpackets]
    exact fun hr net₂ log₂ harr => hres.settled hr harr
  · rintro (hr | hnone)
    · rw [hpackets]
      obtain ⟨net₂, log₂, net₃, log₃, harr, harr'⟩ := hres.exists_arrive hr
      exact ⟨net₂, log₂, net₃, log₃, harr, harr', (hres.settled hr harr).2 _ _ _ (.refl _) harr'⟩
    -- nothing was ever taken up, so there is nothing to arrive
    · have hnil : S.pending net x s = [] := by
        rw [pending, ← h.records.accepted, hnone]
        rfl
      rw [hpackets, hnil]
      refine ⟨net₁, log₁, net₁, log₁, .nil, .nil,
        (hres.shows.settled_iff hres.sound hres.bounded).mpr ?_⟩
      refine List.eq_nil_iff_forall_not_mem.mpr ?_
      intro u hu
      obtain ⟨k, hk, -⟩ := hres.tracked u hu
      rw [hnil] at hk
      cases hk
  · rintro ⟨net₂, log₂, net₃, log₃, harr, harr', hsettled⟩
    -- the arrivals are moves of the run, and no run of a side that cannot recover gets settled
    by_contra hnot
    rw [not_or] at hnot
    have haccepted₃ t : log₃.accepted t = log.accepted t := by
      rw [harr'.accepted, harr.accepted, haccepted]
    have run₃ := ((run.move (.advance span) rfl).arrive harr).arrive harr'
    obtain ⟨x₃, h₃, hx₃⟩ := run₃.sound fun t => by rw [haccepted₃]; exact hn t
    exact h₃.not_settled hx₃ hnot.1 (by rw [haccepted₃]; exact hnot.2) hsettled

/-- The only datagram is lost. -/
def sentAndLost : List Move := [.send .left [7], .lose 0]

theorem recovers_neighbours : neighbours.Recovers .left :=
  ⟨⟨by decide, nofun⟩, ⟨by decide, ⟨_, rfl⟩⟩⟩

theorem settles_sentAndLost :
    let (net, log) := neighbours.playAll neighbours.start [] sentAndLost
    let span := Duration.ofSecs 2
    let packets := neighbours.inFlight net log .left
    (∀ s, (log.accepted s).length < 0x80000000) ∧
      (neighbours.timeout net .left).nanos + (neighbours.config .left).scanInterval.nanos <
        span.nanos ∧
      packets = [.data .first [7]] ∧
      ∃ net₂ log₂ net₃ log₃,
        neighbours.Arrive (neighbours.play net (.advance span)).2.1
          (neighbours.record net log (.advance span)) (neighbours.copies .left packets)
          net₂ log₂ ∧
        neighbours.Arrive net₂ log₂ (neighbours.acks .left packets) net₃ log₃ ∧
        neighbours.Settled net₃ log₃ .left := by
  have hn : ∀ s, (Log.accepted (neighbours.playAll neighbours.start [] sentAndLost).2 s).length <
      0x80000000 := by
    intro s
    cases s <;> decide +kernel
  have hspan : (neighbours.timeout (neighbours.playAll neighbours.start [] sentAndLost).1
      .left).nanos + (neighbours.config .left).scanInterval.nanos <
        (Duration.ofSecs 2).nanos := by
    decide +kernel
  have run : neighbours.Run DataPhase _ _ := .playAll sentAndLost .start (by decide +kernel)
  refine ⟨hn, hspan, by decide +kernel, ?_⟩
  exact (settles_of_dataPhase run hn .left hspan).2.2.2.mp (.inl recovers_neighbours)

/-- Settings with a table of 2³³ slots pass every check, but no engine can be had for them. -/
example : EndPointConfig.Valid { reliability := { tableSize := 0x200000000 } } ∧
    ¬ EndPointConfig.Builds { reliability := { tableSize := 0x200000000 } } := by
  refine ⟨by decide, ?_⟩
  rintro ⟨engine, h⟩
  cases h

end Pair

end ReliableDatagram
