/-
The counters of an engine tell what was called and answered.

Every packet in flight carries the number of its offers.  A scan counts a
packet as lost when it offers it for the first time, so the packets that are
lost sooner or later are those counted so far and those in flight that were
never offered but will be, before their acknowledgement.  This sum is what
carries over from call to call, however often a number is used again; the
other counters are compared with the answers of one call at a time.

What "will be offered" means is told by the rest of the run.  So the run is taken
from its front: the statement about the calls that follow is known, and one call
is put before them.  `Books` is the sending side of one call, `Intake` the
receiving side, and `Balance` the sum over a run; the two sides never touch each
other's counters.

A packet looks new to a scan if its number of offers is zero, and that number is a
word.  A packet that was offered 2³² times looks new again and would be counted a
second time.  Hence the bound that goes with every entry: no packet was offered
more often than there were scans, and with less than 2³² scans no word wraps
around.  The counts of losses are stated under that bound; those of sent, received
and retransmitted packets need none.

Main statement: the counters of every run are the counts of its calls and
answers.
-/
import ReliableDatagram.Proofs.Engine.Bounds
import ReliableDatagram.Proofs.Engine.Stream
import ReliableDatagram.Proofs.Receiving.Runs

namespace ReliableDatagram

/-! ## What happens in a run -/

/-- A call together with what its caller got. -/
structure EngineEvent where
  call : EngineCall
  answer : EngineAnswer

/-- Whether a call hands over a SYN. -/
def EngineCall.isSyn : EngineCall → Bool
  | .receive p => p.isKind .syn
  | _ => false

namespace EngineEvent

/-- The DATA packet that was taken up. -/
def taken? : EngineEvent → Option Packet
  | ⟨.send p _, .sent (.ok ())⟩ => if p.isKind .data then some p else none
  | ⟨.sendData _ _, .numbered (.ok p)⟩ => some p
  | _ => none

/-- The number whose packet was acknowledged. -/
def acknowledged? : EngineEvent → Option SeqNum
  | ⟨.handleAck p _, .acknowledged (.ok true)⟩ => some p.ack.prev
  | _ => none

def offered : EngineEvent → List Packet
  | ⟨.timedOut _, .overdue packets⟩ => packets
  | _ => []

def released : EngineEvent → List Packet
  | ⟨.receive _, .released (.ok packets)⟩ => packets
  | _ => []

def isScan : EngineEvent → Bool
  | ⟨.timedOut _, _⟩ => true
  | _ => false

/-- Whether a packet is offered before its number is acknowledged. -/
def isOffered (p : Packet) : List EngineEvent → Bool
  | [] => false
  | x :: rest => p ∈ x.offered || (x.acknowledged? != some p.seq && isOffered p rest)

/-- The packets that are taken up and then offered before they are acknowledged. -/
def lost : List EngineEvent → List Packet
  | [] => []
  | x :: rest => x.taken?.toList.filter (isOffered · rest) ++ lost rest

theorem lost_sublist (xs : List EngineEvent) : (lost xs).Sublist (xs.filterMap taken?) := by
  induction xs with
  | nil => exact .refl _
  | cons x rest ih =>
      rw [lost, ← List.singleton_append, List.filterMap_append]
      refine .append (List.filter_sublist.trans ?_) ih
      cases hx : x.taken? with
      | none => exact List.nil_sublist _
      | some p => simp [hx]

end EngineEvent

namespace Engine

def events (e : Engine) (calls : List EngineCall) : List EngineEvent :=
  List.zipWith EngineEvent.mk calls (e.answers calls)

/-- Whether a call brings a DATA packet that is new, and for which there is room. -/
def accepts (e : Engine) : EngineCall → Bool
  | .receive p => p.isKind .data && ! e.ordering.isDuplicate p.seq && (e.receive p).1.isOk
  | _ => false

/-- How many such calls there are in a run. -/
def accepted (e : Engine) : List EngineCall → Nat
  | [] => 0
  | c :: rest => (e.accepts c).toNat + (e.call c).2.accepted rest

theorem events_cons (e : Engine) (c : EngineCall) (rest : List EngineCall) :
    e.events (c :: rest) = ⟨c, (e.call c).1⟩ :: (e.call c).2.events rest := rfl

end Engine

/-! ## Counters -/

namespace Tally

/-- No counter is greater than in the other tally. -/
structure Below (t t' : Tally) : Prop where
  sent : t.sent ≤ t'.sent
  received : t.received ≤ t'.received
  lost : t.lost ≤ t'.lost
  retransmitted : t.retransmitted ≤ t'.retransmitted

/-- What one call can do to the counters. -/
inductive Step (t : Tally) : Tally → Prop
  | same : Step t t
  | sent : Step t t.countSent
  | received : Step t t.countReceived
  | offers (offers : List Offer) : Step t (t.countOffers offers)

section Step

variable {t t' t'' : Tally}

theorem Below.refl (t : Tally) : t.Below t :=
  ⟨Nat.le_refl _, Nat.le_refl _, Nat.le_refl _, Nat.le_refl _⟩

theorem Below.trans (h : t.Below t') (h' : t'.Below t'') : t.Below t'' :=
  ⟨Nat.le_trans h.sent h'.sent, Nat.le_trans h.received h'.received,
    Nat.le_trans h.lost h'.lost, Nat.le_trans h.retransmitted h'.retransmitted⟩

theorem Step.below (h : t.Step t') : t.Below t' := by
  cases h with
  | same => exact .refl t
  | sent => exact { Below.refl t with sent := Nat.le_succ _ }
  | received => exact { Below.refl t with received := Nat.le_succ _ }
  | offers offers =>
      exact { Below.refl t with
        lost := Nat.le_add_right _ _
        retransmitted := Nat.le_add_right _ _ }

theorem Step.lost_le (h : t.Step t') (hle : t.lost ≤ t.retransmitted) :
    t'.lost ≤ t'.retransmitted := by
  cases h with
  | same | sent | received => exact hle
  | offers offers => exact Nat.add_le_add hle List.countP_le_length

end Step

end Tally

theorem countP_add_countP {α : Type} {p q r : α → Bool} {l : List α}
    (h : ∀ a ∈ l, (p a).toNat = (q a).toNat + (r a).toNat) :
    l.countP p = l.countP q + l.countP r := by
  induction l with
  | nil => rfl
  | cons a l ih =>
      have hrest := ih fun b hb => h b (List.mem_cons_of_mem a hb)
      have hcons (f : α → Bool) : (a :: l).countP f = l.countP f + (f a).toNat := by
        rw [List.countP_cons]
        cases f a with
        | false => rfl
        | true => rfl
      rw [hcons, hcons, hcons, hrest, h a List.mem_cons_self]
      omega

/-! ## Counts of offers -/

namespace Unacked

theorem retries_renewed_le (u : Unacked) (now : Instant) (timeout : Duration) :
    (u.renewed now timeout).retries.toNat ≤ u.retries.toNat + 1 := by
  rw [renewed]
  split
  · rw [resent, UInt32.toNat_add]
    exact Nat.mod_le _ _
  · exact Nat.le_succ _

/-- Short of 2³² offers a packet that was offered does not look like a new one. -/
theorem retries_resent_ne_zero {u : Unacked} (h : u.retries.toNat + 1 < 0x100000000)
    (now : Instant) : (u.resent now).retries ≠ 0 := by
  intro hzero
  have hnat := congrArg UInt32.toNat hzero
  rw [resent, UInt32.toNat_add, UInt32.toNat_one, Nat.mod_eq_of_lt h] at hnat
  exact Nat.succ_ne_zero _ hnat

end Unacked

namespace LockedEngine

/-! ## The sending side of one call -/

/-- No packet in flight was offered more often than `n` times. -/
def OfferedAtMost (l : LockedEngine) (n : Nat) : Prop :=
  ∀ u ∈ l.tracker.entries, u.retries.toNat ≤ n

/-- How many packets in flight were never offered and will be, if the run goes on so. -/
def unoffered (l : LockedEngine) (xs : List EngineEvent) : Nat :=
  l.tracker.entries.countP fun u => u.retries == 0 && EngineEvent.isOffered u.packet xs

/-- How the sending side of an engine changes with a call. -/
structure Books (l : LockedEngine) (x : EngineEvent) (l' : LockedEngine) : Prop where
  sent : l'.tally.sent = l.tally.sent + x.taken?.toList.length
  size : l'.tracker.size + x.acknowledged?.toList.length =
    l.tracker.size + x.taken?.toList.length
  retransmitted : l'.tally.retransmitted = l.tally.retransmitted + x.offered.length
  /-- As long as no count of offers wraps round. -/
  lost : ∀ n, l.OfferedAtMost n → n + x.isScan.toNat < 0x100000000 → ∀ rest,
    l'.tally.lost + l'.unoffered rest = l.tally.lost + l.unoffered (x :: rest) +
      (x.taken?.toList.filter (EngineEvent.isOffered · rest)).length
  offered : ∀ n, l.OfferedAtMost n → l'.OfferedAtMost (n + x.isScan.toNat)
  step : l.tally.Step l'.tally

section Books

variable {l l' : LockedEngine} {x : EngineEvent} {p : Packet} {now : Instant}

theorem isOffered_cons_of_quiet (ha : x.acknowledged? = none) (ho : x.offered = [])
    (p : Packet) (rest : List EngineEvent) :
    EngineEvent.isOffered p (x :: rest) = EngineEvent.isOffered p rest := by
  rw [EngineEvent.isOffered, ha, ho]
  rfl

theorem books_of_quiet (ht : x.taken? = none) (ha : x.acknowledged? = none)
    (ho : x.offered = []) (hs : x.isScan = false) (htracker : l'.tracker = l.tracker)
    (hsent : l'.tally.sent = l.tally.sent) (hlost : l'.tally.lost = l.tally.lost)
    (hre : l'.tally.retransmitted = l.tally.retransmitted) (hstep : l.tally.Step l'.tally) :
    l.Books x l' where
  sent := by rw [ht]; exact hsent
  size := by rw [ht, ha, htracker]; rfl
  retransmitted := by rw [ho]; exact hre
  lost _ _ _ rest := by
    simp only [ht, unoffered, htracker, hlost, isOffered_cons_of_quiet ha ho]
    rfl
  offered n hn := by
    rw [OfferedAtMost, htracker, hs]
    exact hn
  step := hstep

theorem books_of_same (ht : x.taken? = none) (ha : x.acknowledged? = none)
    (ho : x.offered = []) (hs : x.isScan = false) (htracker : l'.tracker = l.tracker)
    (htally : l'.tally = l.tally) : l.Books x l' :=
  books_of_quiet ht ha ho hs htracker (by rw [htally]) (by rw [htally]) (by rw [htally])
    (htally ▸ .same)

theorem books_of_taken (ht : x.taken? = some p) (ha : x.acknowledged? = none)
    (ho : x.offered = []) (hs : x.isScan = false)
    (hentries : l'.tracker.entries = .sent p now :: l.tracker.entries)
    (htally : l'.tally = l.tally.countSent) : l.Books x l' where
  sent := by rw [ht, htally]; rfl
  size := by rw [ht, ha, Tracker.size, hentries]; rfl
  retransmitted := by rw [ho, htally]; rfl
  lost _ _ _ rest := by
    simp only [ht, unoffered, hentries, htally, isOffered_cons_of_quiet ha ho, List.countP_cons]
    cases hp : EngineEvent.isOffered p rest with
    | false => simp [Unacked.sent, Tally.countSent, hp]
    | true => simp [Unacked.sent, Tally.countSent, hp, Nat.add_assoc]
  offered n hn u hu := by
    rw [hentries] at hu
    rcases List.mem_cons.mp hu with rfl | hu
    · exact Nat.zero_le _
    · rw [hs]
      exact hn u hu
  step := htally ▸ .sent

theorem send_cases (l : LockedEngine) (p : Packet) (now : Instant) :
    (∃ result, l.send p now = (result, l) ∧
        EngineEvent.taken? ⟨.send p now, .sent result⟩ = none) ∨
      (p.isKind .data = true ∧ l.tracker.isVacant p.seq = true ∧
        l.send p now = l.track p now) := by
  rw [LockedEngine.send]
  split
  · next hk =>
      refine .inl ⟨.ok (), rfl, ?_⟩
      rw [EngineEvent.taken?, if_neg hk]
  · next hk =>
      split
      · exact .inl ⟨_, rfl, rfl⟩
      · cases hv : l.tracker.isVacant p.seq with
        | false =>
            rw [track_of_not_isVacant hv]
            exact .inl ⟨_, rfl, rfl⟩
        | true => exact .inr ⟨Decidable.not_not.mp hk, rfl, rfl⟩

theorem books_send (l : LockedEngine) (p : Packet) (now : Instant) :
    l.Books ⟨.send p now, .sent (l.send p now).1⟩ (l.send p now).2 := by
  rcases send_cases l p now with ⟨result, heq, hnone⟩ | ⟨hk, hv, heq⟩
  · rw [heq]
    exact books_of_same hnone rfl rfl rfl rfl rfl
  · rw [heq, track_of_isVacant hk hv, Tracker.record_of_isVacant hk hv]
    refine books_of_taken ?_ rfl rfl rfl rfl rfl
    rw [EngineEvent.taken?, if_pos hk]

theorem books_sendData (l : LockedEngine) (payload : Bytes) (now : Instant) :
    l.Books ⟨.sendData payload now, .numbered (l.sendData payload now).1⟩
      (l.sendData payload now).2 := by
  rcases sendData_cases l payload now with heq | ⟨hfull, hv⟩
  · rw [heq]
    exact books_of_same rfl rfl rfl rfl rfl rfl
  · rw [sendData_of_isVacant hfull hv, Tracker.record_of_isVacant rfl hv]
    exact books_of_taken rfl rfl rfl rfl rfl rfl

theorem Sound.unoffered_acknowledged (h : l.Sound) (sentAt : Instant)
    (rest : List EngineEvent) :
    l.unoffered (⟨.handleAck p now, .acknowledged (.ok true)⟩ :: rest) =
      ({ l with tracker := (l.tracker.acknowledge p.ack).2 }.acknowledged sentAt now).unoffered
        rest := by
  simp only [unoffered, acknowledged, h.tracker.entries_acknowledge, List.countP_filter]
  refine List.countP_congr fun v _ => ?_
  have hoffered : EngineEvent.isOffered v.packet
      (⟨.handleAck p now, .acknowledged (.ok true)⟩ :: rest) =
        (some p.ack.prev != some v.packet.seq && EngineEvent.isOffered v.packet rest) := rfl
  rw [hoffered]
  simp only [Bool.and_eq_true, bne_iff_ne, ne_eq, Option.some.injEq]
  constructor
  · rintro ⟨hr, hne, ho⟩
    exact ⟨⟨hr, ho⟩, Ne.symm hne⟩
  · rintro ⟨⟨hr, ho⟩, hne⟩
    exact ⟨hr, Ne.symm hne, ho⟩

theorem Sound.books_handleAck (h : l.Sound) (p : Packet) (now : Instant) :
    l.Books ⟨.handleAck p now, .acknowledged (l.handleAck p now).1⟩ (l.handleAck p now).2 := by
  rcases handleAck_cases l p now with ⟨answer, heq, hne, -⟩ | ⟨u, -, hf, heq⟩
  · rw [heq]
    refine books_of_same rfl ?_ rfl rfl rfl rfl
    match answer with
    | .error _ => rfl
    | .ok false => rfl
    | .ok true => exact absurd rfl hne
  · rw [heq]
    have hsize : (l.tracker.acknowledge p.ack).2.size + 1 = l.tracker.size :=
      Tracker.size_acknowledge (u := u) (by rw [Tracker.acknowledge, hf])
    refine ⟨rfl, hsize, rfl, fun _ _ _ rest => ?_, ?_, .same⟩
    · rw [h.unoffered_acknowledged u.sentAt]
      rfl
    · intro n hn v hv
      exact hn v ((Tracker.mem_acknowledge h.tracker).mp hv).1

theorem timedOut_eq (l : LockedEngine) (now : Instant) :
    (l.timedOut now).1 = (l.tracker.scan now l.roundTrip.timeout).1.map (·.packet) ∧
      (l.timedOut now).2.tally =
        l.tally.countOffers (l.tracker.scan now l.roundTrip.timeout).1 := by
  simp only [LockedEngine.timedOut]
  split
  · next hempty =>
      rw [List.isEmpty_iff.mp hempty]
      exact ⟨rfl, rfl⟩
  · exact ⟨rfl, rfl⟩

/-- The offers for the first time are those of overdue packets that were never offered. -/
theorem firstTimers_scan (l : LockedEngine) (now : Instant) :
    Offer.firstTimers (l.tracker.scan now l.roundTrip.timeout).1 =
      l.tracker.entries.countP fun u =>
        u.retries == 0 && u.isOverdue now l.roundTrip.timeout := by
  rw [Offer.firstTimers, Tracker.scan, (Offer.inOrder_perm _ _).countP_eq, List.countP_filterMap]
  refine List.countP_congr fun u _ => ?_
  rw [Unacked.offer?]
  split
  · next hover => simp [hover]
  · next hover => simp [hover]

theorem Sound.isOffered_timedOut (h : l.Sound) {u : Unacked} (hu : u ∈ l.tracker.entries)
    (now : Instant) (rest : List EngineEvent) :
    EngineEvent.isOffered u.packet (⟨.timedOut now, .overdue (l.timedOut now).1⟩ :: rest) =
      (u.isOverdue now l.roundTrip.timeout || EngineEvent.isOffered u.packet rest) := by
  have hmem : decide (u.packet ∈ (l.timedOut now).1) = u.isOverdue now l.roundTrip.timeout := by
    rw [Bool.eq_iff_iff, decide_eq_true_iff, mem_timedOut]
    constructor
    · rintro ⟨v, hv, hover, hp⟩
      rwa [h.tracker.eq_of_slotOf hu hv (by rw [hp])]
    · exact fun hover => ⟨u, hu, hover, rfl⟩
  rw [← hmem]
  rfl

/-- What is lost later on is lost in this scan or stays unoffered. -/
theorem Sound.unoffered_timedOut (h : l.Sound) {n : Nat} (hn : l.OfferedAtMost n)
    (hlt : n + 1 < 0x100000000) (now : Instant) (rest : List EngineEvent) :
    l.unoffered (⟨.timedOut now, .overdue (l.timedOut now).1⟩ :: rest) =
      Offer.firstTimers (l.tracker.scan now l.roundTrip.timeout).1 +
        (l.timedOut now).2.unoffered rest := by
  rw [firstTimers_scan, unoffered, unoffered, (timedOut_frame l now).2.2.2, List.countP_map]
  refine countP_add_countP fun u hu => ?_
  rw [h.isOffered_timedOut hu, Function.comp_apply, Tracker.packet_renewed, Unacked.renewed]
  cases hover : u.isOverdue now l.roundTrip.timeout with
  | false => simp
  | true =>
      have hne := Unacked.retries_resent_ne_zero
        (Nat.lt_of_le_of_lt (Nat.succ_le_succ (hn u hu)) hlt) now
      simp [hne]

theorem Sound.books_timedOut (h : l.Sound) (now : Instant) :
    l.Books ⟨.timedOut now, .overdue (l.timedOut now).1⟩ (l.timedOut now).2 := by
  obtain ⟨hanswer, htally⟩ := timedOut_eq l now
  have hentries := (timedOut_frame l now).2.2.2
  refine ⟨?_, ?_, ?_, fun n hn hlt rest => ?_, ?_, ?_⟩
  · rw [htally]
    rfl
  · rw [Tracker.size, hentries, List.length_map]
    rfl
  · rw [htally]
    show _ + _ = _ + (l.timedOut now).1.length
    rw [hanswer, List.length_map]
  · rw [h.unoffered_timedOut hn hlt, htally, ← Nat.add_assoc]
    rfl
  · intro n hn u hu
    rw [hentries] at hu
    obtain ⟨v, hv, rfl⟩ := List.mem_map.mp hu
    exact Nat.le_trans (v.retries_renewed_le now _) (Nat.succ_le_succ (hn v hv))
  · rw [htally]
    exact .offers _

theorem books_receive (l : LockedEngine) (p : Packet) :
    l.Books ⟨.receive p, .released (l.receive p).1⟩ (l.receive p).2 := by
  have htracker : (l.receive p).2.tracker = l.tracker := by rw [receive_sending]
  have htally : (l.receive p).2.tally = l.tally ∨
      (l.receive p).2.tally = l.tally.countReceived := by
    rw [LockedEngine.receive]
    split
    · rw [receiveData]
      split
      · exact .inl rfl
      · exact .inl rfl
      · exact .inr rfl
    · exact .inl rfl
    · exact .inl rfl
  rcases htally with htally | htally
  · exact books_of_same rfl rfl rfl rfl htracker htally
  · exact books_of_quiet rfl rfl rfl rfl htracker (by rw [htally]; rfl) (by rw [htally]; rfl)
      (by rw [htally]; rfl) (htally ▸ .received)

/-- The books of any call. -/
theorem Sound.books (h : l.Sound) {c : EngineCall} {answer : EngineAnswer}
    (hcall : (Engine.locked l).call c = (answer, .locked l')) : l.Books ⟨c, answer⟩ l' := by
  cases c with
  | send p now =>
      cases hcall
      exact books_send l p now
  | sendData payload now =>
      cases hcall
      exact books_sendData l payload now
  | handleAck p now =>
      cases hcall
      exact h.books_handleAck p now
  | receive p =>
      cases hcall
      exact books_receive l p
  | timedOut now =>
      cases hcall
      exact h.books_timedOut now
  | nextNumber | onLoss | isUnacked | retries | budget | stats =>
      cases hcall
      exact books_of_same rfl rfl rfl rfl rfl rfl

end Books

/-! ## The receiving side of one call -/

/-- How the receiving side of an engine changes with a call. -/
structure Intake (l : LockedEngine) (x : EngineEvent) (l' : LockedEngine) : Prop where
  received : l'.tally.received = l.tally.received + ((Engine.locked l).accepts x.call).toNat
  /-- Unless the position is moved, what is new is given out or held. -/
  held : x.call.isSyn = false → l.ordering.Settled → l'.ordering.Settled ∧
    x.released.length + l'.ordering.size =
      l.ordering.size + ((Engine.locked l).accepts x.call).toNat

section Intake

variable {l l' : LockedEngine} {x : EngineEvent} {p : Packet}

theorem intake_of_quiet (ha : (Engine.locked l).accepts x.call = false) (hr : x.released = [])
    (ho : l'.ordering = l.ordering) (ht : l'.tally.received = l.tally.received) :
    l.Intake x l' where
  received := by rw [ha]; exact ht
  held _ hset := by
    rw [ho, ha, hr]
    exact ⟨hset, Nat.zero_add _⟩

/-- What becomes of a DATA packet. -/
theorem receive_data_cases (l : LockedEngine) (hk : p.kind = .data) :
    (l.ordering.isDuplicate p.seq = true ∧ l.receive p = (.ok [], l)) ∨
      (∃ err, l.receive p = (.error err, l)) ∨
      (l.ordering.isDuplicate p.seq = false ∧ ∃ out b, l.ordering.receive p = (.accepted out, b) ∧
        l.receive p = (.ok out, { l with ordering := b, tally := l.tally.countReceived })) := by
  cases hd : l.ordering.isDuplicate p.seq with
  | true => exact .inl ⟨rfl, receive_of_isDuplicate hk hd⟩
  | false =>
      rw [LockedEngine.receive, hk]
      simp only [receiveData]
      cases hr : l.ordering.receive p with
      | mk delivery b =>
          cases delivery with
          | duplicate =>
              have hdup := OrderingBuffer.receive_eq_duplicate_iff.mp (congrArg Prod.fst hr)
              rw [hd] at hdup
              cases hdup
          | overflow =>
              have hb := (OrderingBuffer.receive_of_overflow (congrArg Prod.fst hr)).symm.trans hr
              cases hb
              exact .inr (.inl ⟨_, rfl⟩)
          | accepted out => exact .inr (.inr ⟨trivial, out, b, rfl, rfl⟩)

theorem intake_receive_data (l : LockedEngine) (hk : p.kind = .data) :
    l.Intake ⟨.receive p, .released (l.receive p).1⟩ (l.receive p).2 := by
  rcases receive_data_cases l hk with ⟨hd, heq⟩ | ⟨err, heq⟩ | ⟨hd, out, b, hr, heq⟩
  · rw [heq]
    refine intake_of_quiet ?_ rfl rfl rfl
    simp [Engine.accepts, Engine.ordering, hd]
  · rw [heq]
    refine intake_of_quiet ?_ rfl rfl rfl
    simp [Engine.accepts, Engine.receive, heq, Except.isOk, Except.toBool]
  · have ha : (Engine.locked l).accepts (.receive p) = true := by
      simp [Engine.accepts, Engine.receive, Engine.ordering, Packet.isKind, heq, hk, hd,
        Except.isOk, Except.toBool]
    rw [heq]
    refine ⟨by rw [ha]; rfl, fun _ hset => ?_⟩
    rw [ha]
    rcases hset.receive_cases p with ⟨hr', -⟩ | ⟨hr', -⟩ | ⟨out', b', hr', -, -, hrel, hset'⟩
    · rw [hr] at hr'
      cases hr'
    · rw [hr] at hr'
      cases hr'
    · rw [hr] at hr'
      cases hr'
      refine ⟨hset', ?_⟩
      have hlen := (hrel.places 0).length_eq
      rw [List.length_append, List.length_zipIdx, OrderingBuffer.places, OrderingBuffer.places,
        List.length_map, List.length_map] at hlen
      exact hlen.symm

theorem intake_receive (l : LockedEngine) (p : Packet) :
    l.Intake ⟨.receive p, .released (l.receive p).1⟩ (l.receive p).2 := by
  cases hk : p.kind with
  | data => exact intake_receive_data l hk
  | syn =>
      have ha : (Engine.locked l).accepts (.receive p) = false := by
        rw [Engine.accepts, Packet.isKind, hk]
        rfl
      refine ⟨?_, fun hs => ?_⟩
      · rw [ha, LockedEngine.receive, hk]
        rfl
      · rw [EngineCall.isSyn, Packet.isKind, hk] at hs
        cases hs
  | ack | fin | rst =>
      have ha : (Engine.locked l).accepts (.receive p) = false := by
        rw [Engine.accepts, Packet.isKind, hk]
        rfl
      rw [LockedEngine.receive, hk]
      exact intake_of_quiet ha rfl rfl rfl

theorem receiving_send (l : LockedEngine) (p : Packet) (now : Instant) :
    (l.send p now).2.ordering = l.ordering ∧
      (l.send p now).2.tally.received = l.tally.received := by
  rcases send_cases l p now with ⟨result, heq, -⟩ | ⟨hk, hv, heq⟩
  · rw [heq]
    exact ⟨rfl, rfl⟩
  · rw [heq, track_of_isVacant hk hv]
    exact ⟨rfl, rfl⟩

theorem receiving_sendData (l : LockedEngine) (payload : Bytes) (now : Instant) :
    (l.sendData payload now).2.ordering = l.ordering ∧
      (l.sendData payload now).2.tally.received = l.tally.received := by
  rcases sendData_cases l payload now with heq | ⟨hfull, hv⟩
  · rw [heq]
    exact ⟨rfl, rfl⟩
  · rw [sendData_of_isVacant hfull hv]
    exact ⟨rfl, rfl⟩

theorem receiving_handleAck (l : LockedEngine) (p : Packet) (now : Instant) :
    (l.handleAck p now).2.ordering = l.ordering ∧
      (l.handleAck p now).2.tally.received = l.tally.received := by
  rcases handleAck_cases l p now with ⟨answer, heq, -⟩ | ⟨u, -, -, heq⟩
  · rw [heq]
    exact ⟨rfl, rfl⟩
  · rw [heq]
    exact ⟨rfl, rfl⟩

theorem intake {c : EngineCall} {answer : EngineAnswer}
    (hcall : (Engine.locked l).call c = (answer, .locked l')) : l.Intake ⟨c, answer⟩ l' := by
  cases c with
  | send p now =>
      cases hcall
      obtain ⟨ho, ht⟩ := receiving_send l p now
      exact intake_of_quiet rfl rfl ho ht
  | sendData payload now =>
      cases hcall
      obtain ⟨ho, ht⟩ := receiving_sendData l payload now
      exact intake_of_quiet rfl rfl ho ht
  | handleAck p now =>
      cases hcall
      obtain ⟨ho, ht⟩ := receiving_handleAck l p now
      exact intake_of_quiet rfl rfl ho ht
  | receive p =>
      cases hcall
      exact intake_receive l p
  | timedOut now =>
      cases hcall
      have ht : (l.timedOut now).2.tally.received = l.tally.received := by
        rw [(timedOut_eq l now).2]
        rfl
      exact intake_of_quiet rfl rfl (timedOut_frame l now).2.1 ht
  | nextNumber | onLoss | isUnacked | retries | budget | stats =>
      cases hcall
      exact intake_of_quiet rfl rfl rfl rfl

end Intake

/-! ## Runs -/

/-- How an engine changes with the calls of a run. -/
structure Balance (l : LockedEngine) (xs : List EngineEvent) (l' : LockedEngine) : Prop where
  sent : l'.tally.sent = l.tally.sent + (xs.filterMap EngineEvent.taken?).length
  size : l'.tracker.size + (xs.filterMap EngineEvent.acknowledged?).length =
    l.tracker.size + (xs.filterMap EngineEvent.taken?).length
  retransmitted : l'.tally.retransmitted =
    l.tally.retransmitted + (xs.flatMap EngineEvent.offered).length
  lost : ∀ n, l.OfferedAtMost n → n + xs.countP EngineEvent.isScan < 0x100000000 →
    l'.tally.lost = l.tally.lost + l.unoffered xs + (EngineEvent.lost xs).length
  offered : ∀ n, l.OfferedAtMost n → l'.OfferedAtMost (n + xs.countP EngineEvent.isScan)
  below : l.tally.Below l'.tally
  lost_le : l.tally.lost ≤ l.tally.retransmitted → l'.tally.lost ≤ l'.tally.retransmitted

section Balance

variable {l mid l' : LockedEngine} {x : EngineEvent} {xs : List EngineEvent}

theorem length_filterMap_cons {α β : Type} (f : α → Option β) (a : α) (l : List α) :
    ((a :: l).filterMap f).length = (f a).toList.length + (l.filterMap f).length := by
  rw [List.filterMap_cons]
  cases f a with
  | none => exact (Nat.zero_add _).symm
  | some b => exact Nat.add_comm _ _

theorem balance_nil (l : LockedEngine) : l.Balance [] l where
  sent := rfl
  size := rfl
  retransmitted := rfl
  lost _ _ _ := by
    have hnone : l.unoffered [] = 0 := by
      rw [unoffered, List.countP_eq_zero]
      intro u _
      rw [EngineEvent.isOffered, Bool.and_false]
      exact Bool.false_ne_true
    rw [hnone]
    rfl
  offered _ hn := hn
  below := .refl _
  lost_le := id

theorem countP_isScan_cons (x : EngineEvent) (xs : List EngineEvent) :
    (x :: xs).countP EngineEvent.isScan = x.isScan.toNat + xs.countP EngineEvent.isScan := by
  rw [List.countP_cons, Nat.add_comm]
  cases x.isScan with
  | false => rfl
  | true => rfl

/-- One more call in front. -/
theorem Books.balance (hx : l.Books x mid) (h : mid.Balance xs l') : l.Balance (x :: xs) l' where
  sent := by
    rw [h.sent, hx.sent, length_filterMap_cons, Nat.add_assoc]
  size := by
    have h1 := h.size
    have h2 := hx.size
    rw [length_filterMap_cons, length_filterMap_cons]
    omega
  retransmitted := by
    rw [h.retransmitted, hx.retransmitted, List.flatMap_cons, List.length_append, Nat.add_assoc]
  lost n hn hlt := by
    rw [countP_isScan_cons, ← Nat.add_assoc] at hlt
    rw [h.lost _ (hx.offered n hn) hlt, hx.lost n hn (Nat.lt_of_le_of_lt (Nat.le_add_right _ _) hlt),
      EngineEvent.lost, List.length_append, Nat.add_assoc]
  offered n hn := by
    rw [countP_isScan_cons, ← Nat.add_assoc]
    exact h.offered _ (hx.offered n hn)
  below := hx.step.below.trans h.below
  lost_le hle := h.lost_le (hx.step.lost_le hle)

end Balance

end LockedEngine

namespace Engine

section Follows

variable {e : Engine} {l l' : LockedEngine}

theorem Follows.accepts (h : e.Follows l) (c : EngineCall) :
    e.accepts c = (Engine.locked l).accepts c := by
  cases c with
  | receive p =>
      rw [Engine.accepts, Engine.accepts, h.ordering, (h.receive p).1]
      rfl
  | _ => rfl

theorem Follows.mem_tracked (h : e.Follows l) {u : Unacked} :
    u ∈ e.tracked ↔ u ∈ l.tracker.entries := by
  cases e with
  | locked e => rw [Engine.tracked, h.1]
  | lockFree f => exact (LockFreeEngine.Agrees.table h).entries_perm.mem_iff

theorem Follows.balance (h : e.Follows l) (calls : List EngineCall) :
    ∃ l', (e.after calls).Follows l' ∧ l.Balance (e.events calls) l' ∧
      l'.tally.received = l.tally.received + e.accepted calls ∧
      ((∀ c ∈ calls, c.isSyn = false) → l.ordering.Settled →
        ((e.events calls).flatMap EngineEvent.released).length + l'.ordering.size =
          l.ordering.size + e.accepted calls) := by
  induction calls generalizing e l with
  | nil => exact ⟨l, h, LockedEngine.balance_nil l, rfl, fun _ _ => Nat.zero_add _⟩
  | cons c rest ih =>
      obtain ⟨mid, hcall, hmid⟩ := h.call c
      obtain ⟨last, hlast, hbalance, hreceived, hheld⟩ := ih hmid
      have hx := LockedEngine.intake hcall
      rw [events_cons, accepted, h.accepts]
      refine ⟨last, hlast, (h.sound.books hcall).balance hbalance, ?_, ?_⟩
      · rw [hreceived, hx.received, Nat.add_assoc]
      · intro hsyn hset
        obtain ⟨hset', hone⟩ := hx.held (hsyn c List.mem_cons_self) hset
        have hrest := hheld (fun c hc => hsyn c (List.mem_cons_of_mem _ hc)) hset'
        rw [List.flatMap_cons, List.length_append, Nat.add_assoc, hrest, ← Nat.add_assoc, hone,
          Nat.add_assoc]

end Follows

/-! ## Main result -/

/-- The counters and the answers of a run. -/
structure Accounts (e : Engine) (calls : List EngineCall) : Prop where
  /-- Sent are the DATA packets that were taken up. -/
  sent : (e.after calls).stats.tally.sent =
    ((e.events calls).filterMap EngineEvent.taken?).length
  /-- Each of them was acknowledged or is in flight. -/
  unacked : (e.after calls).stats.tally.sent = (e.after calls).stats.unacked +
    ((e.events calls).filterMap EngineEvent.acknowledged?).length
  retransmitted : (e.after calls).stats.tally.retransmitted =
    ((e.events calls).flatMap EngineEvent.offered).length
  /-- Lost are those that were offered before their acknowledgement.  A count of offers that wraps
  round would count a packet as lost anew. -/
  lost : (e.events calls).countP EngineEvent.isScan < 0x100000000 →
    (e.after calls).stats.tally.lost = (EngineEvent.lost (e.events calls)).length ∧
      (e.after calls).stats.tally.lost ≤ (e.after calls).stats.tally.sent
  lost_le_retransmitted :
    (e.after calls).stats.tally.lost ≤ (e.after calls).stats.tally.retransmitted
  received : (e.after calls).stats.tally.received = e.accepted calls
  /-- While no SYN moves the position, what was received is given out or held back. -/
  held : (∀ c ∈ calls, c.isSyn = false) → (e.after calls).stats.tally.received =
    ((e.events calls).flatMap EngineEvent.released).length + (e.after calls).ordering.size
  /-- Each scan offers a packet once at most. -/
  retries_le : ∀ u ∈ (e.after calls).tracked,
    u.retries.toNat ≤ (e.events calls).countP EngineEvent.isScan
  /-- No counter decreases. -/
  below : ∀ more, (e.after calls).stats.tally.Below ((e.after calls).after more).stats.tally

/-- Whatever calls are made, the counters of an engine of either kind are the counts of what
happened. -/
theorem accounts_of_every_run {kind : EngineKind} {config : Reliability} {e : Engine}
    (hnew : new kind config = .ok e) (calls : List EngineCall) : e.Accounts calls := by
  obtain ⟨-, hf⟩ := follows_start hnew
  obtain ⟨l, hl, hbalance, hreceived, hheld⟩ := hf.balance calls
  have htally {e : Engine} {l : LockedEngine} (h : e.Follows l) : e.stats.tally = l.tally := by
    rw [h.stats]
    rfl
  -- all counters start at zero, with nothing in flight and nothing held
  have hsent := hbalance.sent.trans (Nat.zero_add _)
  have hlost hscans := (hbalance.lost 0 nofun (by rwa [Nat.zero_add])).trans (Nat.zero_add _)
  have hsize := hbalance.size.trans (Nat.zero_add _)
  have hreceived := hreceived.trans (Nat.zero_add _)
  refine ⟨?_, ?_, ?_, fun hscans => ?_, ?_, ?_, ?_, ?_, fun more => ?_⟩
  · rw [htally hl, hsent]
  · rw [htally hl, hl.stats, hsent]
    exact hsize.symm
  · rw [htally hl]
    exact hbalance.retransmitted.trans (Nat.zero_add _)
  · rw [htally hl, hsent, hlost hscans]
    exact ⟨rfl, (EngineEvent.lost_sublist _).length_le⟩
  · rw [htally hl]
    exact hbalance.lost_le (Nat.le_refl _)
  · rw [htally hl, hreceived]
  · intro hsyn
    have hout := (hheld hsyn (OrderingBuffer.settled_new _ _)).trans (Nat.zero_add _)
    rw [htally hl, hl.ordering, hreceived, hout]
  · intro u hu
    have hle := hbalance.offered 0 nofun u (hl.mem_tracked.mp hu)
    rwa [Nat.zero_add] at hle
  · obtain ⟨last, hlast, hmore, -⟩ := hl.balance more
    rw [htally hl, htally hlast]
    exact hmore.below

/-- Settings with room for two packets in flight and one held back. -/
def twoInFlight : Reliability where
  initialWindow := 2
  receiveCapacity := 1

/-- A payload is offered by two scans, which leave no room for a second one; it is acknowledged
twice, and its number is used once more.  A packet comes ahead of its turn, and so do its copy and
one that finds no room. -/
def busyRun : List EngineCall :=
  [.sendData [7] 0, .timedOut 2000000000, .timedOut 4000000000, .sendData [8] 4000000000,
    .handleAck (.acknowledge ⟨2⟩) 4000000000, .handleAck (.acknowledge ⟨2⟩) 4000000000,
    .send (.data ⟨1⟩ [9]) 4000000000, .sendData [8] 4000000000, .receive (.data ⟨2⟩ [6]),
    .receive (.data ⟨2⟩ [6]), .receive (.data ⟨3⟩ [7]), .receive (.data ⟨1⟩ [5]),
    .receive (.data ⟨4⟩ [7])]

theorem accounts_of_busyRun :
    ∃ e, new .lockFree twoInFlight = .ok e ∧ e.Accounts busyRun ∧
      (e.after busyRun).stats.tally = ⟨3, 3, 1, 2⟩ ∧ (e.after busyRun).stats.unacked = 2 := by
  obtain ⟨e, hnew⟩ : ∃ e, new .lockFree twoInFlight = .ok e := ⟨_, rfl⟩
  refine ⟨e, hnew, accounts_of_every_run hnew busyRun, ?_, ?_⟩
  · cases hnew
    decide +kernel
  · cases hnew
    decide +kernel

end Engine

end ReliableDatagram
