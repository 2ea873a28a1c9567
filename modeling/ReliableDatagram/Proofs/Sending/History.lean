/-
What a tracker holds, told from its history.

A packet that is taken up opens a flight, and what comes after it in the
history tells the rest: the scans that offered its number again, and whether
the number was acknowledged.  No other packet of that number is taken up
meanwhile, for the slot is occupied, so all of this is about the one packet.

The tracker keeps only packets, times and counts, and finds them by slot.  Yet
its entries are those of the open flights, one for one and in their order; this
is what every call keeps.

The flights are read off a history by recursion from its first event on, where
each packet that is taken up looks at everything behind it.  A run, however, grows
at its end.  So the main part of the module is about one more event at the end of
a history: it extends the flights that are open and may open one.  There are three
kinds of event, and for each there is a lemma about the open flights: recording
leaves them as they are, an acknowledgement ends those of its number, and a scan
renews them all.  With these the induction over the calls is short.

Renewing is where history and entry have to agree on numbers.  The time of the
last scan that offered a flight is the time of its entry, and the count of those
scans, as a word, is the count in the entry.

Main statement: the open flights of the history determine every answer.
-/
import Mathlib.Data.List.Nodup
import ReliableDatagram.Proofs.Sending.Offers
import ReliableDatagram.Proofs.Sending.Tracker

namespace ReliableDatagram

/-! ## Histories -/

/-- A call to a tracker. -/
inductive TrackerCall where
  | record (packet : Packet) (now : Instant)
  | acknowledge (ack : SeqNum)
  | scan (now : Instant) (timeout : Duration)
deriving DecidableEq

/-- When a scan was made, and for which timeout. -/
structure Scan where
  now : Instant
  timeout : Duration
deriving DecidableEq

/-- A call together with what its caller got. -/
inductive TrackerEvent where
  | recorded (packet : Packet) (now : Instant) (taken : Bool)
  | acknowledged (ack : SeqNum) (entry : Option Unacked)
  | scanned (scan : Scan) (offers : List Offer)
deriving DecidableEq

/-- A packet that was taken up, and what became of it. -/
structure Flight where
  packet : Packet
  recordedAt : Instant
  /-- The scans that offered it again, oldest first. -/
  offeredBy : List Scan
  /-- Whether its number was acknowledged. -/
  ended : Bool
deriving DecidableEq

namespace Flight

/-- When it was sent last: at the last scan that offered it, or else when it was recorded. -/
def sentAt (f : Flight) : Instant := (f.offeredBy.getLast?.map (·.now)).getD f.recordedAt

/-- What is kept of an open flight. -/
def entry (f : Flight) : Unacked := ⟨f.packet, f.sentAt, .ofNat f.offeredBy.length⟩

theorem toNat_retries {f : Flight} (h : f.offeredBy.length < 0x100000000) :
    f.entry.retries.toNat = f.offeredBy.length :=
  UInt32.toNat_ofNat_of_lt' h

end Flight

namespace TrackerEvent

def isScan : TrackerEvent → Bool
  | scanned _ _ => true
  | _ => false

/-- Whether a call acknowledged a number, whatever it answered. -/
def acknowledges (s : SeqNum) : TrackerEvent → Bool
  | acknowledged ack _ => ack.prev == s
  | _ => false

/-- Whether a call gave out an entry for a number. -/
def returns (s : SeqNum) : TrackerEvent → Bool
  | acknowledged ack (some _) => ack.prev == s
  | _ => false

/-- The scan, if a number was among its offers. -/
def offering? (s : SeqNum) : TrackerEvent → Option Scan
  | scanned scan offers => if offers.any (·.packet.seq == s) then some scan else none
  | _ => none

/-- The scans that offered a number until it was acknowledged. -/
def offering (s : SeqNum) : List TrackerEvent → List Scan
  | [] => []
  | x :: rest => if x.acknowledges s then [] else (x.offering? s).toList ++ offering s rest

/-- The flight that a call opened, told from what came after it. -/
def opened? (rest : List TrackerEvent) : TrackerEvent → Option Flight
  | recorded p now true => some ⟨p, now, offering p.seq rest, rest.any (·.acknowledges p.seq)⟩
  | _ => none

/-- All flights of a history, in the order in which they were opened. -/
def flights : List TrackerEvent → List Flight
  | [] => []
  | x :: rest => (x.opened? rest).toList ++ flights rest

/-- The flights that have not ended. -/
def openFlights (xs : List TrackerEvent) : List Flight := (flights xs).filter (! ·.ended)

theorem mem_openFlights {xs : List TrackerEvent} {f : Flight} :
    f ∈ openFlights xs ↔ f ∈ flights xs ∧ f.ended = false := by
  rw [openFlights, List.mem_filter, Bool.not_eq_true']

theorem mem_flights {xs : List TrackerEvent} {f : Flight} :
    f ∈ flights xs ↔ ∃ front p now rest, xs = front ++ recorded p now true :: rest ∧
      f = ⟨p, now, offering p.seq rest, rest.any (·.acknowledges p.seq)⟩ := by
  induction xs with
  | nil =>
      refine ⟨nofun, ?_⟩
      rintro ⟨front, p, now, rest, heq, -⟩
      exact absurd heq.symm (List.append_ne_nil_of_right_ne_nil front (List.cons_ne_nil _ rest))
  | cons x xs ih =>
      rw [flights, List.mem_append, ih]
      constructor
      · rintro (hx | ⟨front, p, now, rest, rfl, hf⟩)
        · have hx := Option.mem_toList.mp hx
          cases x with
          | recorded p now taken =>
              cases taken with
              | true => exact ⟨[], p, now, xs, rfl, (Option.some.inj hx).symm⟩
              | false => cases hx
          | acknowledged | scanned => cases hx
        · exact ⟨x :: front, p, now, rest, rfl, hf⟩
      · rintro ⟨front, p, now, rest, heq, hf⟩
        cases front with
        | nil =>
            obtain ⟨rfl, rfl⟩ := List.cons.inj heq
            exact .inl (by rw [hf]; exact Option.mem_toList.mpr rfl)
        | cons y front => exact .inr ⟨front, p, now, rest, (List.cons.inj heq).2, hf⟩

theorem length_offering_le (s : SeqNum) (xs : List TrackerEvent) :
    (offering s xs).length ≤ xs.countP isScan := by
  induction xs with
  | nil => exact Nat.le_refl _
  | cons x rest ih =>
      rw [offering]
      split
      · exact Nat.zero_le _
      · rw [List.length_append, List.countP_cons, Nat.add_comm]
        refine Nat.add_le_add ih ?_
        cases x with
        | scanned scan offers =>
            rw [offering?]
            split
            · exact Nat.le_refl _
            · exact Nat.zero_le _
        | recorded | acknowledged => exact Nat.zero_le _

theorem length_offeredBy_le {xs : List TrackerEvent} {f : Flight} (hf : f ∈ flights xs) :
    f.offeredBy.length ≤ xs.countP isScan := by
  obtain ⟨front, p, now, rest, rfl, rfl⟩ := mem_flights.mp hf
  refine Nat.le_trans (length_offering_le p.seq rest) ?_
  rw [List.countP_append, List.countP_cons]
  omega

/-! ## One more event -/

end TrackerEvent

/-- A flight after one more event. -/
def Flight.after (f : Flight) (x : TrackerEvent) : Flight :=
  if f.ended then f
  else { f with
    offeredBy := f.offeredBy ++ (x.offering? f.packet.seq).toList
    ended := x.acknowledges f.packet.seq }

namespace TrackerEvent

theorem offering_singleton (s : SeqNum) (x : TrackerEvent) :
    offering s [x] = (x.offering? s).toList := by
  rw [offering, offering, List.append_nil]
  split
  · next hack =>
      cases x with
      | acknowledged => rfl
      | recorded | scanned => cases hack
  · rfl

theorem offering_concat (s : SeqNum) (xs : List TrackerEvent) (x : TrackerEvent) :
    offering s (xs ++ [x]) = offering s xs ++
      (if xs.any (·.acknowledges s) then [] else (x.offering? s).toList) := by
  induction xs with
  | nil => exact offering_singleton s x
  | cons y rest ih =>
      rw [List.cons_append, offering, offering, List.any_cons, ih]
      cases y.acknowledges s with
      | true => rfl
      | false => exact (List.append_assoc _ _ _).symm

theorem opened?_concat (xs : List TrackerEvent) (x y : TrackerEvent) :
    y.opened? (xs ++ [x]) = (y.opened? xs).map (·.after x) := by
  unfold opened?
  split
  · next p now =>
      rw [offering_concat, List.any_append, Option.map_some, Flight.after]
      cases xs.any (·.acknowledges p.seq) with
      | true => simp
      | false => simp
  · rfl

theorem flights_concat (xs : List TrackerEvent) (x : TrackerEvent) :
    flights (xs ++ [x]) = (flights xs).map (·.after x) ++ (x.opened? []).toList := by
  induction xs with
  | nil => exact List.append_nil _
  | cons y rest ih =>
      rw [List.cons_append, flights, flights, ih, opened?_concat, List.map_append,
        List.append_assoc, Option.toList_map]

theorem openFlights_concat (xs : List TrackerEvent) (x : TrackerEvent) :
    openFlights (xs ++ [x]) =
      ((openFlights xs).map (·.after x)).filter (! ·.ended) ++ (x.opened? []).toList := by
  have hnew : ((x.opened? []).toList).filter (! ·.ended) = (x.opened? []).toList := by
    unfold opened?
    split
    · rfl
    · rfl
  have hended (f : Flight) : (! (f.after x).ended) = (! (f.after x).ended && ! f.ended) := by
    rw [Flight.after]
    split
    · next h => simp [h]
    · next h => simp [h]
  rw [openFlights, flights_concat, List.filter_append, hnew, openFlights, List.filter_map,
    List.filter_map, List.filter_filter]
  congr 2
  exact List.filter_congr fun f _ => hended f

theorem after_of_open {f : Flight} (hf : f.ended = false) (x : TrackerEvent) :
    f.after x = { f with
      offeredBy := f.offeredBy ++ (x.offering? f.packet.seq).toList
      ended := x.acknowledges f.packet.seq } := by
  rw [Flight.after, if_neg (by rw [hf]; exact Bool.false_ne_true)]

theorem openFlights_recorded (xs : List TrackerEvent) (p : Packet) (now : Instant)
    (taken : Bool) : openFlights (xs ++ [recorded p now taken]) =
      openFlights xs ++ (if taken then [⟨p, now, [], false⟩] else []) := by
  have hkept : ∀ f ∈ openFlights xs, f.after (recorded p now taken) = f := by
    intro f hf
    have hopen := (mem_openFlights.mp hf).2
    rw [after_of_open hopen]
    obtain ⟨packet, at₀, offeredBy, ended⟩ := f
    cases hopen
    simp [offering?, acknowledges]
  rw [openFlights_concat, List.map_congr_left hkept, List.map_id', openFlights,
    List.filter_filter]
  simp only [Bool.and_self]
  cases taken with
  | true => rfl
  | false => rfl

theorem openFlights_acknowledged (xs : List TrackerEvent) (ack : SeqNum)
    (answer : Option Unacked) : openFlights (xs ++ [acknowledged ack answer]) =
      (openFlights xs).filter fun f => f.packet.seq != ack.prev := by
  have hafter : ∀ f ∈ openFlights xs,
      f.after (acknowledged ack answer) = { f with ended := ack.prev == f.packet.seq } := by
    intro f hf
    rw [after_of_open (mem_openFlights.mp hf).2]
    simp [offering?, acknowledges]
  have hended : ∀ f ∈ openFlights xs,
      ((! ·.ended) ∘ (·.after (acknowledged ack answer))) f = (f.packet.seq != ack.prev) := by
    intro f hf
    rw [Function.comp_apply, hafter f hf, bne, Bool.beq_comm]
  have hkept : ∀ f ∈ (openFlights xs).filter fun f => f.packet.seq != ack.prev,
      f.after (acknowledged ack answer) = f := by
    intro f hf
    obtain ⟨hf, hne⟩ := List.mem_filter.mp hf
    rw [hafter f hf, beq_eq_false_iff_ne.mpr (Ne.symm (bne_iff_ne.mp hne)),
      ← (mem_openFlights.mp hf).2]
  rw [openFlights_concat, List.filter_map, List.filter_congr hended, List.map_congr_left hkept,
    List.map_id']
  exact List.append_nil _

theorem openFlights_scanned (xs : List TrackerEvent) (scan : Scan) (offers : List Offer) :
    openFlights (xs ++ [scanned scan offers]) =
      (openFlights xs).map (·.after (scanned scan offers)) := by
  have hopen : ∀ f ∈ (openFlights xs).map (·.after (scanned scan offers)),
      (! f.ended) = true := by
    intro f hf
    obtain ⟨g, hg, rfl⟩ := List.mem_map.mp hf
    rw [after_of_open (mem_openFlights.mp hg).2]
    rfl
  rw [openFlights_concat, List.filter_eq_self.mpr hopen]
  exact List.append_nil _

end TrackerEvent

/-! ## Runs -/

namespace Tracker

open TrackerEvent

def call (t : Tracker) : TrackerCall → TrackerEvent × Tracker
  | .record p now => (.recorded p now (t.record p now).1, (t.record p now).2)
  | .acknowledge ack => (.acknowledged ack (t.acknowledge ack).1, (t.acknowledge ack).2)
  | .scan now timeout =>
    (.scanned ⟨now, timeout⟩ (t.scan now timeout).1, (t.scan now timeout).2)

def events (t : Tracker) : List TrackerCall → List TrackerEvent
  | [] => []
  | c :: rest => (t.call c).1 :: (t.call c).2.events rest

def after (t : Tracker) : List TrackerCall → Tracker
  | [] => t
  | c :: rest => (t.call c).2.after rest

/-- A tracker that holds the open flights of a history, the latest in front. -/
structure HasHistory (t : Tracker) (xs : List TrackerEvent) : Prop where
  wellFormed : t.WellFormed
  entries : t.entries.reverse = (openFlights xs).map Flight.entry
  /-- The entries given out for a number are those of its flights that have ended. -/
  returned : ∀ s, xs.countP (returns s) =
    (flights xs).countP fun f => f.ended && f.packet.seq == s

theorem hasHistory_empty (slots : Nat) : HasHistory ⟨slots, [], none⟩ [] :=
  ⟨wellFormed_empty slots, rfl, fun _ => rfl⟩

section HasHistory

variable {t : Tracker} {xs : List TrackerEvent}

theorem HasHistory.mem_entries (h : t.HasHistory xs) {u : Unacked} :
    u ∈ t.entries ↔ ∃ f ∈ openFlights xs, f.entry = u := by
  rw [← List.mem_reverse, h.entries, List.mem_map]

theorem HasHistory.entry_mem (h : t.HasHistory xs) {f : Flight} (hf : f ∈ openFlights xs) :
    f.entry ∈ t.entries := h.mem_entries.mpr ⟨f, hf, rfl⟩

/-- An entry is found under a number if a flight of that number is open. -/
theorem HasHistory.find?_eq_some_iff (h : t.HasHistory xs) {s : SeqNum} {u : Unacked} :
    t.find? s = some u ↔ ∃ f ∈ openFlights xs, f.packet.seq = s ∧ u = f.entry := by
  rw [Tracker.find?_eq_some_iff h.wellFormed, h.mem_entries]
  constructor
  · rintro ⟨⟨f, hf, rfl⟩, hs⟩
    exact ⟨f, hf, hs, rfl⟩
  · rintro ⟨f, hf, hs, rfl⟩
    exact ⟨⟨f, hf, rfl⟩, hs⟩

theorem HasHistory.find?_eq_none_iff (h : t.HasHistory xs) {s : SeqNum} :
    t.find? s = none ↔ ∀ f ∈ openFlights xs, f.packet.seq ≠ s := by
  rw [Tracker.find?_eq_none_iff h.wellFormed]
  constructor
  · intro hn f hf
    exact hn f.entry (h.entry_mem hf)
  · intro hn u hu
    obtain ⟨f, hf, rfl⟩ := h.mem_entries.mp hu
    exact hn f hf

theorem HasHistory.nodup (h : t.HasHistory xs) :
    ((openFlights xs).map (·.packet.seq)).Nodup := by
  have hseq : (openFlights xs).map (·.packet.seq) = t.entries.reverse.map (·.packet.seq) := by
    rw [h.entries, List.map_map]
    rfl
  rw [hseq, List.map_reverse, List.nodup_reverse]
  exact h.wellFormed.nodup_seq

theorem HasHistory.countP_openFlights (h : t.HasHistory xs) (s : SeqNum) :
    (openFlights xs).countP (·.packet.seq == s) = (t.find? s).isSome.toNat := by
  cases hf : t.find? s with
  | none =>
      rw [List.countP_eq_zero.mpr]
      · rfl
      · intro f hm heq
        exact h.find?_eq_none_iff.mp hf f hm (beq_iff_eq.mp heq)
  | some u =>
      obtain ⟨f, hm, hs, -⟩ := h.find?_eq_some_iff.mp hf
      have hone := List.count_eq_one_of_mem h.nodup (List.mem_map.mpr ⟨f, hm, hs⟩)
      rwa [List.count, List.countP_map] at hone

/-! ## One call -/

/-- An event adds the open flights that it ends to those that have ended. -/
theorem countP_ended_concat (xs : List TrackerEvent) (x : TrackerEvent) (s : SeqNum) :
    ((flights (xs ++ [x])).countP fun f => f.ended && f.packet.seq == s) =
      ((flights xs).countP fun f => f.ended && f.packet.seq == s) +
        (openFlights xs).countP fun f => x.acknowledges f.packet.seq && f.packet.seq == s := by
  have hnew : (x.opened? []).toList.countP (fun f => f.ended && f.packet.seq == s) = 0 := by
    unfold opened?
    split
    · rfl
    · rfl
  have hseq (f : Flight) : (f.after x).packet.seq = f.packet.seq := by
    rw [Flight.after]
    split
    · rfl
    · rfl
  rw [flights_concat, List.countP_append, hnew, Nat.add_zero, List.countP_map,
    List.countP_eq_countP_filter_add _ _ (·.ended), List.countP_filter]
  congr 1
  · refine List.countP_congr fun f _ => ?_
    cases hf : f.ended with
    | true => simp [Flight.after, hf]
    | false => simp
  · refine List.countP_congr fun f hf => ?_
    rw [Function.comp_apply, hseq, after_of_open (mem_openFlights.mp hf).2]

theorem HasHistory.returned_concat (h : t.HasHistory xs) {x : TrackerEvent}
    (hx : ∀ s, (returns s x).toNat =
      (openFlights xs).countP fun f => x.acknowledges f.packet.seq && f.packet.seq == s)
    (s : SeqNum) : (xs ++ [x]).countP (returns s) =
      (flights (xs ++ [x])).countP fun f => f.ended && f.packet.seq == s := by
  rw [countP_ended_concat, ← h.returned, ← hx, List.countP_append, List.countP_singleton]
  cases returns s x with
  | false => rfl
  | true => rfl

theorem HasHistory.record (h : t.HasHistory xs) (p : Packet) (now : Instant) :
    (t.record p now).2.HasHistory (xs ++ [.recorded p now (t.record p now).1]) where
  wellFormed := h.wellFormed.record p now
  entries := by
    rw [openFlights_recorded, Tracker.record]
    split
    · show (Unacked.sent p now :: t.entries).reverse = _
      rw [List.reverse_cons, h.entries, if_pos rfl, List.map_append]
      rfl
    · rw [h.entries]
      exact congrArg _ (List.append_nil _).symm
  returned := h.returned_concat fun s => (List.countP_eq_zero.mpr fun _ _ =>
    Bool.false_ne_true).symm

theorem HasHistory.acknowledge (h : t.HasHistory xs) (ack : SeqNum) :
    (t.acknowledge ack).2.HasHistory (xs ++ [.acknowledged ack (t.acknowledge ack).1]) where
  wellFormed := h.wellFormed.acknowledge ack
  entries := by
    rw [h.wellFormed.entries_acknowledge, openFlights_acknowledged, ← List.filter_reverse, h.entries,
      List.filter_map]
    rfl
  returned := by
    refine h.returned_concat fun s => ?_
    by_cases hs : ack.prev = s
    · have hcount : ((openFlights xs).countP fun f =>
          (acknowledged ack (t.acknowledge ack).1).acknowledges f.packet.seq &&
            f.packet.seq == s) = (openFlights xs).countP (·.packet.seq == s) := by
        refine List.countP_congr fun f _ => ?_
        simp only [acknowledges, hs, Bool.and_eq_true, beq_iff_eq]
        exact ⟨And.right, fun heq => ⟨heq.symm, heq⟩⟩
      rw [hcount, h.countP_openFlights, ← hs, ← answer_acknowledge]
      cases (t.acknowledge ack).1 with
      | none => rfl
      | some u => simp [returns]
    · have hnone : ((openFlights xs).countP fun f =>
          (acknowledged ack (t.acknowledge ack).1).acknowledges f.packet.seq &&
            f.packet.seq == s) = 0 := by
        refine List.countP_eq_zero.mpr fun f _ => ?_
        simp only [acknowledges, Bool.and_eq_true, beq_iff_eq, not_and]
        exact fun hack hseq => hs (hack.trans hseq)
      rw [hnone]
      cases (t.acknowledge ack).1 with
      | none => rfl
      | some u => simp [returns, hs]

theorem mem_scan {now : Instant} {timeout : Duration} {o : Offer} :
    o ∈ (t.scan now timeout).1 ↔
      ∃ u ∈ t.entries, u.isOverdue now timeout = true ∧ o = ⟨u.packet, u.retries + 1⟩ := by
  rw [Tracker.scan, (Offer.inOrder_perm _ _).mem_iff, List.mem_filterMap]
  refine exists_congr fun u => and_congr_right fun _ => ?_
  rw [Unacked.offer?]
  split
  · next hover => simp [hover, eq_comm]
  · next hover => simp [hover]

/-- A number held is among the offers of a scan exactly if its entry is overdue. -/
theorem any_scan (h : t.WellFormed) {u : Unacked} (hu : u ∈ t.entries) (now : Instant)
    (timeout : Duration) : (t.scan now timeout).1.any (·.packet.seq == u.packet.seq) =
      u.isOverdue now timeout := by
  rw [Bool.eq_iff_iff, List.any_eq_true]
  constructor
  · rintro ⟨o, ho, hseq⟩
    obtain ⟨v, hv, hover, rfl⟩ := mem_scan.mp ho
    rwa [h.eq_of_slotOf hu hv (by rw [beq_iff_eq.mp hseq])]
  · intro hover
    exact ⟨_, mem_scan.mpr ⟨u, hu, hover, rfl⟩, beq_self_eq_true _⟩

theorem HasHistory.renewed_entry (h : t.HasHistory xs) {f : Flight} (hf : f ∈ openFlights xs)
    (now : Instant) (timeout : Duration) : f.entry.renewed now timeout =
      (f.after (.scanned ⟨now, timeout⟩ (t.scan now timeout).1)).entry := by
  have hany := any_scan h.wellFormed (h.entry_mem hf) now timeout
  rw [after_of_open (mem_openFlights.mp hf).2, offering?, Unacked.renewed, ← hany]
  show _ = Flight.entry { f with
    offeredBy := f.offeredBy ++ (if (t.scan now timeout).1.any (·.packet.seq == f.packet.seq)
      then some (⟨now, timeout⟩ : Scan) else none).toList
    ended := false }
  show (if (t.scan now timeout).1.any (·.packet.seq == f.packet.seq) = true then _ else _) = _
  split
  · simp [Flight.entry, Flight.sentAt, Unacked.resent, UInt32.ofNat_add]
  · simp [Flight.entry, Flight.sentAt]

theorem HasHistory.scan (h : t.HasHistory xs) (now : Instant) (timeout : Duration) :
    (t.scan now timeout).2.HasHistory
      (xs ++ [.scanned ⟨now, timeout⟩ (t.scan now timeout).1]) where
  wellFormed := h.wellFormed.scan now timeout
  entries := by
    rw [openFlights_scanned, Tracker.scan, ← List.map_reverse, h.entries, List.map_map,
      List.map_map]
    exact List.map_congr_left fun f hf => h.renewed_entry hf now timeout
  returned := h.returned_concat fun s => (List.countP_eq_zero.mpr fun _ _ =>
    Bool.false_ne_true).symm

/-- Each call adds what happens in it to the history. -/
theorem HasHistory.call (h : t.HasHistory xs) (c : TrackerCall) :
    (t.call c).2.HasHistory (xs ++ [(t.call c).1]) := by
  cases c with
  | record p now => exact h.record p now
  | acknowledge ack => exact h.acknowledge ack
  | scan now timeout => exact h.scan now timeout

theorem HasHistory.run (h : t.HasHistory xs) (calls : List TrackerCall) :
    (t.after calls).HasHistory (xs ++ t.events calls) := by
  induction calls generalizing t xs with
  | nil => rwa [events, List.append_nil]
  | cons c rest ih =>
      have hrest := ih (h.call c)
      rwa [List.append_assoc] at hrest

end HasHistory

/-! ## Main result -/

theorem slots_call (t : Tracker) (c : TrackerCall) : (t.call c).2.slots = t.slots := by
  cases c with
  | record p now =>
      rw [call, record]
      split
      · rfl
      · rfl
  | acknowledge ack =>
      rw [call, acknowledge]
      split
      · rfl
      · rfl
  | scan now timeout => rfl

theorem slots_after (t : Tracker) (calls : List TrackerCall) :
    (t.after calls).slots = t.slots := by
  induction calls generalizing t with
  | nil => rfl
  | cons c rest ih => exact (ih _).trans (slots_call t c)

/-- What a tracker of so many slots answers after a history. -/
structure AnswersFrom (t : Tracker) (slots : Nat) (xs : List TrackerEvent) : Prop where
  /-- An acknowledgement gives out the packet of its number that was taken up and not yet
  acknowledged, with the count of its offers and the time when it was sent last. -/
  acknowledge : ∀ ack u, (t.acknowledge ack).1 = some u ↔
    ∃ f ∈ flights xs, f.ended = false ∧ f.packet.seq = ack.prev ∧ u = f.entry
  /-- So far as many entries were given out for a number as packets of it are acknowledged. -/
  returned : ∀ s, xs.countP (returns s) =
    (flights xs).countP fun f => f.ended && f.packet.seq == s
  /-- If there is no such packet, nothing is removed, whatever its slot holds. -/
  unmatched : ∀ ack, (∀ f ∈ openFlights xs, f.packet.seq ≠ ack.prev) →
    t.acknowledge ack = (none, t)
  record : ∀ p now, (t.record p now).1 = true ↔ p.kind = .data ∧
    ∀ f ∈ openFlights xs, f.packet.seq.word.toNat % slots ≠ p.seq.word.toNat % slots
  /-- No call but its acknowledgement removes or replaces a packet. -/
  kept : ∀ f ∈ openFlights xs, ∀ c,
    (∀ ack, c = .acknowledge ack → ack.prev ≠ f.packet.seq) →
    ((t.call c).2.find? f.packet.seq).map (·.packet) = some f.packet
  size : t.size = (openFlights xs).length
  /-- With fewer than 2³² scans the word for the offers of a packet is their number. -/
  retries : xs.countP isScan < 0x100000000 →
    ∀ f ∈ flights xs, f.entry.retries.toNat = f.offeredBy.length

section AnswersFrom

variable {t : Tracker} {xs : List TrackerEvent}

theorem HasHistory.kept (h : t.HasHistory xs) {f : Flight} (hf : f ∈ openFlights xs)
    (c : TrackerCall) (hc : ∀ ack, c = .acknowledge ack → ack.prev ≠ f.packet.seq) :
    ((t.call c).2.find? f.packet.seq).map (·.packet) = some f.packet := by
  suffices hm : ∃ u ∈ (t.call c).2.entries, u.packet = f.packet by
    obtain ⟨u, hu, hp⟩ := hm
    rw [(Tracker.find?_eq_some_iff (h.call c).wellFormed).mpr ⟨hu, by rw [hp]⟩, Option.map_some,
      hp]
  have hu := h.entry_mem hf
  cases c with
  | record p now =>
      refine ⟨f.entry, ?_, rfl⟩
      rw [Tracker.call, Tracker.record]
      split
      · exact List.mem_cons_of_mem _ hu
      · exact hu
  | acknowledge ack =>
      refine ⟨f.entry, ?_, rfl⟩
      rw [Tracker.call, h.wellFormed.entries_acknowledge, List.mem_filter]
      exact ⟨hu, bne_iff_ne.mpr (hc ack rfl).symm⟩
  | scan now timeout =>
      exact ⟨f.entry.renewed now timeout, List.mem_map_of_mem hu, packet_renewed _ _ _⟩

theorem HasHistory.answersFrom (h : t.HasHistory xs) : t.AnswersFrom t.slots xs where
  acknowledge ack u := by
    rw [answer_acknowledge, h.find?_eq_some_iff]
    simp only [mem_openFlights, and_assoc]
  returned := h.returned
  unmatched ack hno := acknowledge_of_find?_none (h.find?_eq_none_iff.mpr hno)
  record p now := by
    have hvacant : t.isVacant p.seq = true ↔
        ∀ f ∈ openFlights xs, f.packet.seq.word.toNat % t.slots ≠ p.seq.word.toNat % t.slots := by
      rw [isVacant_iff]
      constructor
      · exact fun hv f hf => hv f.entry (h.entry_mem hf)
      · intro hv u hu
        obtain ⟨f, hf, rfl⟩ := h.mem_entries.mp hu
        exact hv f hf
    rw [← hvacant, Tracker.record]
    split
    · next hc => simpa [Packet.isKind] using hc
    · next hc => simpa [Packet.isKind] using hc
  kept f hf c hc := h.kept hf c hc
  size := by
    rw [Tracker.size, ← List.length_reverse, h.entries, List.length_map]
  retries hn f hf := f.toNat_retries (Nat.lt_of_le_of_lt (length_offeredBy_le hf) hn)

end AnswersFrom

/-- For every number of slots that a tracker can have there is a tracker, and after any calls its
answers are those that its history determines. -/
theorem answersFrom_of_every_run {slots : Nat} (hp : isPowerOfTwo slots = true)
    (hle : slots ≤ 0x100000000) : ∃ t, new slots = .ok t ∧
      ∀ calls, (t.after calls).AnswersFrom slots (t.events calls) := by
  refine ⟨⟨slots, [], none⟩, ?_, fun calls => ?_⟩
  · rw [new, if_neg (not_not_intro hp), if_neg (Nat.not_lt.mpr hle)]
  · have hanswers := ((hasHistory_empty slots).run calls).answersFrom
    rwa [slots_after] at hanswers

/-- Two numbers share a slot: the second packet is refused until the first one, offered twice, is
acknowledged.  An acknowledgement of the second number comes in between, and one of the first
number too many. -/
def collidingCalls : List TrackerCall :=
  [.record (.data ⟨3⟩ [7]) 0, .record (.data ⟨19⟩ [8]) 0, .scan 200 ⟨100⟩, .acknowledge ⟨20⟩,
    .scan 250 ⟨100⟩, .scan 400 ⟨100⟩, .acknowledge ⟨4⟩, .acknowledge ⟨4⟩,
    .record (.data ⟨19⟩ [8]) 500]

theorem answersFrom_of_collidingCalls :
    (isPowerOfTwo 16 = true ∧ 16 ≤ 0x100000000) ∧ ∃ t, new 16 = .ok t ∧
      (t.after collidingCalls).AnswersFrom 16 (t.events collidingCalls) ∧
      flights (t.events collidingCalls) =
        [⟨.data ⟨3⟩ [7], 0, [⟨200, ⟨100⟩⟩, ⟨400, ⟨100⟩⟩], true⟩,
          ⟨.data ⟨19⟩ [8], 500, [], false⟩] := by
  obtain ⟨t, hnew, hcalls⟩ := @answersFrom_of_every_run 16 (by decide) (by decide)
  refine ⟨by decide, t, hnew, hcalls collidingCalls, ?_⟩
  cases hnew
  decide +kernel

end Tracker

end ReliableDatagram
