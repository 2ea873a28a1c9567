/-
What scans offer, one by one and over a history.

Whether a packet is overdue depends on its own entry only, so the offers of a
scan are the same in whatever order the entries are found; sorting them by the
distance of their numbers leaves nothing to chance, for no two packets held
have one number.

An offered packet counts as sent at the time of its scan, and the clock may run
back.  Still, the times of the scans that offer a packet increase: each of them
comes after the packet was sent last by more than its own timeout.  This is
what carries over from event to event.

A span that would be negative is none at all, and a timeout has to be exceeded, so
a scan by a clock that went back offers nothing, whatever its timeout.  This is
why the times of one flight increase: `Spaced` says so of a flight, and a scan
that offers the flight once more adds a later time at its end.

The counts of offers are words.  The history counts scans without a bound, and
entry and offer show that number cut to a word; below 2³² scans nothing is cut
off.

Main statements: what a scan does to a tracker, and when a packet is offered
in a history.
-/
import ReliableDatagram.Proofs.Sending.History

namespace ReliableDatagram

/-! ## One scan -/

theorem Unacked.renewed_eq (u : Unacked) (now : Instant) (timeout : Duration) :
    u.renewed now timeout =
      if timeout.nanos < now - u.sentAt then ⟨u.packet, now, u.retries + 1⟩ else u := by
  rw [renewed, isOverdue, Duration.between]
  simp only [decide_eq_true_iff]
  rfl

theorem Unacked.filterMap_offer? (us : List Unacked) (now : Instant) (timeout : Duration) :
    us.filterMap (·.offer? now timeout) =
      (us.filter fun u => timeout.nanos < now - u.sentAt).map fun u =>
        ⟨u.packet, u.retries + 1⟩ := by
  rw [← List.filterMap_eq_map, List.filterMap_filter]
  rfl

namespace Tracker

/-- What a scan gives out and leaves. -/
structure ScansExactly (t : Tracker) (now : Instant) (timeout : Duration) : Prop where
  /-- Offered is what was sent more than the timeout ago; a clock that ran back counts as one that
  stood still. -/
  offers : (t.scan now timeout).1.Perm
    ((t.entries.filter fun u => timeout.nanos < now - u.sentAt).map fun u =>
      ⟨u.packet, u.retries + 1⟩)
  once : ((t.scan now timeout).1.map (·.packet.seq)).Nodup
  /-- Every slot is occupied as before, by a packet that counts as sent now if it was offered. -/
  occupant? : ∀ s, (t.scan now timeout).2.occupant? s = (t.occupant? s).map fun u =>
    if timeout.nanos < now - u.sentAt then ⟨u.packet, now, u.retries + 1⟩ else u
  packets : (t.scan now timeout).2.entries.map (·.packet) = t.entries.map (·.packet)
  slots : (t.scan now timeout).2.slots = t.slots
  highest : (t.scan now timeout).2.highest = t.highest
  /-- The order in which the entries are kept makes no difference. -/
  unordered : ∀ us, us.Perm t.entries →
    ({ t with entries := us }.scan now timeout).1 = (t.scan now timeout).1 ∧
      ({ t with entries := us }.scan now timeout).2.entries.Perm (t.scan now timeout).2.entries
  /-- Offers go from the oldest number to the newest, as long as none of them lies half the space
  behind the highest one. -/
  ordered : ∀ last ∈ t.highest, (∀ u ∈ t.entries, last.offset u.packet.seq < 0x80000000) →
    (t.scan now timeout).1.Pairwise fun a b =>
      last.offset b.packet.seq < last.offset a.packet.seq ∧
        b.packet.seq.isAfter a.packet.seq = true

section ScansExactly

variable {t : Tracker}

theorem scan_perm (t : Tracker) (now : Instant) (timeout : Duration) :
    (t.scan now timeout).1.Perm
      ((t.entries.filter fun u => timeout.nanos < now - u.sentAt).map fun u =>
        ⟨u.packet, u.retries + 1⟩) := by
  rw [← Unacked.filterMap_offer?]
  exact Offer.inOrder_perm _ _

theorem WellFormed.nodup_scan (h : t.WellFormed) (now : Instant) (timeout : Duration) :
    ((t.scan now timeout).1.map (·.packet.seq)).Nodup := by
  rw [((scan_perm t now timeout).map _).nodup_iff, List.map_map]
  exact h.nodup_seq.sublist (List.filter_sublist.map _)

theorem occupant?_scan (t : Tracker) (now : Instant) (timeout : Duration) (s : SeqNum) :
    (t.scan now timeout).2.occupant? s =
      (t.occupant? s).map (·.renewed now timeout) := by
  have hsame : (t.scan now timeout).2.sharesSlot s ∘ (·.renewed now timeout) =
      t.sharesSlot s := by
    funext u
    rw [Function.comp_apply, sharesSlot, packet_renewed]
    rfl
  rw [occupant?, Tracker.scan, List.find?_map]
  exact congrArg (fun p => (t.entries.find? p).map (·.renewed now timeout)) hsame

/-- The same entries, kept in any order, are offered in the same order. -/
theorem WellFormed.scan_of_perm (h : t.WellFormed) {us : List Unacked} (hp : us.Perm t.entries)
    (now : Instant) (timeout : Duration) :
    ({ t with entries := us }.scan now timeout).1 = (t.scan now timeout).1 := by
  have hmem : ∀ o ∈ us.filterMap (·.offer? now timeout),
      ∃ u ∈ t.entries, (⟨u.packet, u.retries + 1⟩ : Offer) = o := by
    intro o ho
    rw [Unacked.filterMap_offer?] at ho
    obtain ⟨u, hu, heq⟩ := List.mem_map.mp ho
    exact ⟨u, hp.mem_iff.mp (List.mem_filter.mp hu).1, heq⟩
  rw [Tracker.scan, Tracker.scan]
  cases hlast : t.highest with
  | none =>
      rw [h.recorded hlast, List.perm_nil] at hp
      rw [hp, h.recorded hlast]
  | some last =>
      refine Offer.inOrder_eq_of_perm last (hp.filterMap _) ?_
      intro a ha b hb hseq
      -- offers of one number come from one slot, and so from one entry
      obtain ⟨u, hu, rfl⟩ := hmem a ha
      obtain ⟨v, hv, rfl⟩ := hmem b hb
      rw [h.eq_of_slotOf hu hv (congrArg t.slotOf hseq)]

theorem WellFormed.ordered_scan (h : t.WellFormed) {last : SeqNum} (hlast : t.highest = some last)
    (hnear : ∀ u ∈ t.entries, last.offset u.packet.seq < 0x80000000) (now : Instant)
    (timeout : Duration) : (t.scan now timeout).1.Pairwise fun a b =>
      last.offset b.packet.seq < last.offset a.packet.seq ∧
        b.packet.seq.isAfter a.packet.seq = true := by
  have hbehind : ∀ o ∈ (t.scan now timeout).1, last.offset o.packet.seq < 0x80000000 := by
    intro o ho
    obtain ⟨u, hu, -, rfl⟩ := mem_scan.mp ho
    exact hnear u hu
  have hdistinct := List.pairwise_map.mp (h.nodup_scan now timeout)
  have hsorted : (t.scan now timeout).1.Pairwise fun a b =>
      a.packet.seq.distance last.next ≤ b.packet.seq.distance last.next := by
    rw [Tracker.scan, hlast]
    exact Offer.pairwise_inOrder _ _
  refine (hsorted.and hdistinct).imp_of_mem ?_
  rintro a b ha hb ⟨hle, hne⟩
  have hlt : last.offset b.packet.seq < last.offset a.packet.seq := by
    have hoffset : last.offset a.packet.seq ≠ last.offset b.packet.seq := by
      intro heq
      refine hne (@SeqNum.distance_inj _ _ last.next ?_)
      rw [SeqNum.distance_next (hbehind a ha), SeqNum.distance_next (hbehind b hb), heq]
    rw [SeqNum.distance_next (hbehind a ha), SeqNum.distance_next (hbehind b hb)] at hle
    omega
  exact ⟨hlt, SeqNum.isAfter_of_offset_lt (hbehind a ha) hlt⟩

theorem WellFormed.scansExactly (h : t.WellFormed) (now : Instant) (timeout : Duration) :
    t.ScansExactly now timeout where
  offers := scan_perm t now timeout
  once := h.nodup_scan now timeout
  occupant? s := by
    rw [occupant?_scan]
    exact congrArg (Option.map · _) (funext fun u => u.renewed_eq now timeout)
  packets := by
    rw [Tracker.scan, List.map_map]
    exact List.map_congr_left fun u _ => packet_renewed u now timeout
  slots := rfl
  highest := rfl
  unordered us hp := ⟨h.scan_of_perm hp now timeout, hp.map _⟩
  ordered last hlast hnear := h.ordered_scan hlast hnear now timeout

end ScansExactly

end Tracker

/-! ## The times of one flight -/

/-- A flight that was offered no earlier than each scan allows. -/
structure Flight.Spaced (f : Flight) : Prop where
  first : ∀ scan ∈ f.offeredBy, scan.timeout.nanos < scan.now - f.recordedAt
  later : f.offeredBy.Pairwise fun a b => b.timeout.nanos < b.now - a.now

namespace Flight

variable {f : Flight}

theorem le_of_lt_sub {span : Nat} {since now : Instant} (h : span < now - since) : since ≤ now :=
  Nat.le_of_lt (Nat.sub_pos_iff_lt.mp (Nat.zero_lt_of_lt h))

/-- No scan that offered it is later than the last one. -/
theorem Spaced.le_sentAt (h : f.Spaced) :
    f.recordedAt ≤ f.sentAt ∧ ∀ scan ∈ f.offeredBy, scan.now ≤ f.sentAt := by
  rcases List.eq_nil_or_concat f.offeredBy with hnil | ⟨front, last, hcat⟩
  · rw [sentAt, hnil]
    exact ⟨Nat.le_refl _, fun _ hscan => absurd hscan List.not_mem_nil⟩
  · rw [List.concat_eq_append] at hcat
    have hsent : f.sentAt = last.now := by
      rw [sentAt, hcat, List.getLast?_concat]
      rfl
    have hfirst := h.first last (by rw [hcat]; exact List.mem_concat_self)
    have hlater := h.later
    rw [hcat, List.pairwise_append] at hlater
    rw [hsent, hcat]
    refine ⟨le_of_lt_sub hfirst, fun scan hscan => ?_⟩
    rcases List.mem_append.mp hscan with hscan | hscan
    · exact le_of_lt_sub (hlater.2.2 scan hscan last List.mem_cons_self)
    · exact List.mem_singleton.mp hscan ▸ Nat.le_refl _

theorem Spaced.offered (h : f.Spaced) {scan : Scan}
    (hlt : scan.timeout.nanos < scan.now - f.sentAt) :
    Spaced { f with offeredBy := f.offeredBy ++ [scan] } where
  first s hs := by
    rcases List.mem_append.mp hs with hs | hs
    · exact h.first s hs
    · rw [List.mem_singleton.mp hs]
      exact Nat.lt_of_lt_of_le hlt (Nat.sub_le_sub_left h.le_sentAt.1 _)
  later := by
    refine List.pairwise_append.mpr ⟨h.later, List.pairwise_singleton _ _, ?_⟩
    intro a ha b hb
    rw [List.mem_singleton.mp hb]
    exact Nat.lt_of_lt_of_le hlt (Nat.sub_le_sub_left (h.le_sentAt.2 a ha) _)

end Flight

/-! ## Over a history -/

namespace TrackerEvent

/-- When packets are offered in a history. -/
structure OffersInTime (xs : List TrackerEvent) : Prop where
  /-- A scan offers the packets that were taken up, are not acknowledged and were sent last more
  than its timeout ago. -/
  offers : ∀ front scan offers rest, xs = front ++ scanned scan offers :: rest →
    offers.Perm (((openFlights front).filter fun f =>
      scan.timeout.nanos < scan.now - f.sentAt).map fun f =>
        ⟨f.packet, .ofNat (f.offeredBy.length + 1)⟩)
  /-- With fewer than 2³² scans the word in an offer is one more than the number of offers
  so far. -/
  counts : xs.countP isScan < 0x100000000 → ∀ front scan offers rest,
    xs = front ++ scanned scan offers :: rest → ∀ o ∈ offers,
      ∃ f ∈ openFlights front, o.packet = f.packet ∧ o.retry.toNat = f.offeredBy.length + 1
  /-- From one offer of a number to the next, more than the timeout of the later one passes, unless
  the number was taken up anew in between. -/
  spaced : ∀ front a as mid b bs rest,
    xs = front ++ scanned a as :: (mid ++ scanned b bs :: rest) →
    ∀ o ∈ as, ∀ o' ∈ bs, o.packet.seq = o'.packet.seq →
    (∀ p now, recorded p now true ∈ mid → p.seq ≠ o.packet.seq) →
      b.timeout.nanos < b.now - a.now
  /-- What is offered after an acknowledgement of its number was taken up anew in between. -/
  acknowledged : ∀ front ack answer mid scan offers rest,
    xs = front ++ acknowledged ack answer :: (mid ++ scanned scan offers :: rest) →
    ∀ o ∈ offers, o.packet.seq = ack.prev → ∃ now, recorded o.packet now true ∈ mid

theorem opened_or_passed {front mid : List TrackerEvent} {x : TrackerEvent} {f : Flight}
    (hf : f ∈ flights (front ++ x :: mid)) (hx : ∀ p now, x ≠ recorded p now true) :
    (∃ now, recorded f.packet now true ∈ mid) ∨
      ∃ before, f.offeredBy = offering f.packet.seq (before ++ x :: mid) ∧
        f.ended = (before ++ x :: mid).any (·.acknowledges f.packet.seq) := by
  obtain ⟨pre, p, now, rest, heq, rfl⟩ := mem_flights.mp hf
  rcases List.append_eq_append_iff.mp heq with ⟨between, -, hmid⟩ | ⟨between, -, hrest⟩
  · rcases List.cons_eq_append_iff.mp hmid with ⟨-, hhead⟩ | ⟨later, -, rfl⟩
    · exact absurd (List.cons.inj hhead).1.symm (hx p now)
    · exact .inl ⟨now, List.mem_append_right _ List.mem_cons_self⟩
  · rcases List.cons_eq_append_iff.mp hrest with ⟨-, hhead⟩ | ⟨before, -, rfl⟩
    · exact absurd (List.cons.inj hhead).1 (hx p now)
    · exact .inr ⟨before, rfl, rfl⟩

/-- A scan that offers a number is among those that count, until the number is acknowledged. -/
theorem mem_offering {before rest : List TrackerEvent} {x : TrackerEvent} {s : SeqNum}
    {scan : Scan} (hx : x.offering? s = some scan)
    (hopen : (before ++ x :: rest).any (·.acknowledges s) = false) :
    scan ∈ offering s (before ++ x :: rest) := by
  induction before with
  | nil =>
      rw [List.nil_append, List.any_cons, Bool.or_eq_false_iff] at hopen
      rw [List.nil_append, offering, if_neg (by rw [hopen.1]; exact Bool.false_ne_true), hx]
      exact List.mem_cons_self
  | cons y before ih =>
      rw [List.cons_append, List.any_cons, Bool.or_eq_false_iff] at hopen
      rw [List.cons_append, offering, if_neg (by rw [hopen.1]; exact Bool.false_ne_true)]
      exact List.mem_append_right _ (ih hopen.2)

end TrackerEvent

namespace Tracker

open TrackerEvent

section HasHistory

variable {t : Tracker} {xs : List TrackerEvent}

theorem HasHistory.spaced_call (h : t.HasHistory xs) (hs : ∀ f ∈ flights xs, f.Spaced)
    (c : TrackerCall) : ∀ f ∈ flights (xs ++ [(t.call c).1]), f.Spaced := by
  intro f hf
  rw [flights_concat, List.mem_append, List.mem_map] at hf
  -- a flight of before goes on or has ended; a new one was never offered
  rcases hf with ⟨g, hg, rfl⟩ | hnew
  · have hspaced := hs g hg
    cases hopen : g.ended with
    | true => rwa [Flight.after, if_pos hopen]
    | false =>
        rw [after_of_open hopen]
        cases hscan : (t.call c).1.offering? g.packet.seq with
        | none =>
            rw [Option.toList_none, List.append_nil]
            exact ⟨hspaced.first, hspaced.later⟩
        | some scan =>
            have hlt : scan.timeout.nanos < scan.now - g.sentAt := by
              cases c with
              | record | acknowledge => cases hscan
              | scan now timeout =>
                  have hany : (t.scan now timeout).1.any (·.packet.seq == g.packet.seq) =
                      g.entry.isOverdue now timeout :=
                    any_scan h.wellFormed (h.entry_mem (mem_openFlights.mpr ⟨hg, hopen⟩)) _ _
                  rw [Tracker.call, offering?, hany] at hscan
                  split at hscan
                  · next hoverdue =>
                      cases hscan
                      exact of_decide_eq_true hoverdue
                  · cases hscan
            have hlater := hspaced.offered hlt
            exact ⟨hlater.first, hlater.later⟩
  · cases c with
    | record p now =>
        rw [Tracker.call] at hnew
        unfold opened? at hnew
        split at hnew
        · cases List.mem_singleton.mp hnew
          exact ⟨fun _ hscan => absurd hscan List.not_mem_nil, .nil⟩
        · cases hnew
    | acknowledge | scan => cases hnew

theorem HasHistory.spaced_run (h : t.HasHistory xs) (hs : ∀ f ∈ flights xs, f.Spaced)
    (calls : List TrackerCall) : ∀ f ∈ flights (xs ++ t.events calls), f.Spaced := by
  induction calls generalizing t xs with
  | nil => rwa [events, List.append_nil]
  | cons c rest ih =>
      have hrest := ih (h.call c) (h.spaced_call hs c)
      rwa [List.append_assoc] at hrest

theorem exists_of_events {calls : List TrackerCall} {front rest : List TrackerEvent}
    {x : TrackerEvent} (heq : t.events calls = front ++ x :: rest) :
    ∃ before c, t.events before = front ∧ ((t.after before).call c).1 = x := by
  induction front generalizing t calls with
  | nil =>
      cases calls with
      | nil => cases heq
      | cons c calls => exact ⟨[], c, rfl, (List.cons.inj heq).1⟩
  | cons y front ih =>
      cases calls with
      | nil => cases heq
      | cons c calls =>
          obtain ⟨hy, hrest⟩ := List.cons.inj heq
          obtain ⟨before, d, hbefore, hd⟩ := ih hrest
          exact ⟨c :: before, d, by rw [events, hy, hbefore], hd⟩

theorem HasHistory.scan_perm (h : t.HasHistory xs) (now : Instant) (timeout : Duration) :
    (t.scan now timeout).1.Perm (((openFlights xs).filter fun f =>
      timeout.nanos < now - f.sentAt).map fun f =>
        ⟨f.packet, .ofNat (f.offeredBy.length + 1)⟩) := by
  have hentries : t.entries.Perm ((openFlights xs).map Flight.entry) := by
    rw [← h.entries]
    exact (List.reverse_perm _).symm
  refine (Tracker.scan_perm t now timeout).trans (((hentries.filter _).map _).trans ?_)
  rw [List.filter_map, List.map_map]
  refine .of_eq (List.map_congr_left fun f _ => ?_)
  rw [Function.comp_apply, UInt32.ofNat_add]
  rfl

/-- The history before a scan tells what the scan offers. -/
theorem HasHistory.of_scanned (h : t.HasHistory []) {calls : List TrackerCall}
    {front rest : List TrackerEvent} {scan : Scan} {offers : List Offer}
    (heq : t.events calls = front ++ scanned scan offers :: rest) :
    (∀ f ∈ flights front, f.Spaced) ∧ offers.Perm (((openFlights front).filter fun f =>
      scan.timeout.nanos < scan.now - f.sentAt).map fun f =>
        ⟨f.packet, .ofNat (f.offeredBy.length + 1)⟩) := by
  obtain ⟨before, c, rfl, hc⟩ := exists_of_events heq
  refine ⟨h.spaced_run (fun _ hf => absurd hf List.not_mem_nil) before, ?_⟩
  cases c with
  | record | acknowledge => cases hc
  | scan now timeout =>
      cases hc
      exact (h.run before).scan_perm now timeout

theorem HasHistory.offersInTime (h : t.HasHistory []) (calls : List TrackerCall) :
    OffersInTime (t.events calls) where
  offers front scan offers rest heq := (h.of_scanned heq).2
  counts hscans front scan offers rest heq o ho := by
    obtain ⟨f, hf, rfl⟩ := List.mem_map.mp ((h.of_scanned heq).2.mem_iff.mp ho)
    have hf := (List.mem_filter.mp hf).1
    have hle := length_offeredBy_le (mem_openFlights.mp hf).1
    rw [heq, List.countP_append, List.countP_cons_of_pos rfl] at hscans
    have hlt : f.offeredBy.length + 1 < 0x100000000 := by omega
    exact ⟨f, hf, rfl, UInt32.toNat_ofNat_of_lt' hlt⟩
  spaced front a as mid b bs rest heq o ho o' ho' hseq hno := by
    rw [← List.cons_append, ← List.append_assoc] at heq
    obtain ⟨hspaced, hoffers⟩ := h.of_scanned heq
    obtain ⟨f, hf, rfl⟩ := List.mem_map.mp (hoffers.mem_iff.mp ho')
    obtain ⟨hf, hlt⟩ := List.mem_filter.mp hf
    obtain ⟨hf, hopen⟩ := mem_openFlights.mp hf
    -- the flight was open at the earlier scan, or began after it
    rcases opened_or_passed hf (by rintro _ _ ⟨⟩) with ⟨now, hnew⟩ | ⟨before, hby, hended⟩
    · exact absurd hseq.symm (hno f.packet now hnew)
    · have hany : as.any (·.packet.seq == f.packet.seq) = true :=
        List.any_eq_true.mpr ⟨o, ho, beq_iff_eq.mpr hseq⟩
      have hscan : (scanned a as).offering? f.packet.seq = some a := by
        rw [offering?, if_pos hany]
      have hmem : a ∈ f.offeredBy := by
        rw [hby]
        exact mem_offering hscan (hended.symm.trans hopen)
      have hle := (hspaced f hf).le_sentAt.2 a hmem
      exact Nat.lt_of_lt_of_le (of_decide_eq_true hlt) (Nat.sub_le_sub_left hle _)
  acknowledged front ack answer mid scan offers rest heq o ho hseq := by
    rw [← List.cons_append, ← List.append_assoc] at heq
    obtain ⟨-, hoffers⟩ := h.of_scanned heq
    obtain ⟨f, hf, rfl⟩ := List.mem_map.mp (hoffers.mem_iff.mp ho)
    obtain ⟨hf, hopen⟩ := mem_openFlights.mp (List.mem_filter.mp hf).1
    rcases opened_or_passed hf (by rintro _ _ ⟨⟩) with ⟨now, hnew⟩ | ⟨before, -, hended⟩
    · exact ⟨now, hnew⟩
    · -- the acknowledgement would have ended the flight
      have hack : (acknowledged ack answer).acknowledges f.packet.seq = true :=
        beq_iff_eq.mpr hseq.symm
      rw [hopen, List.any_append, List.any_cons, hack, Bool.true_or, Bool.or_true] at hended
      cases hended

end HasHistory

end Tracker

end ReliableDatagram
