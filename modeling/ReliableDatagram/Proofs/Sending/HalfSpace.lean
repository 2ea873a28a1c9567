/-
Serial order within half the space.

On all numbers serial order is no order: going forward by less than half the
space again and again leads back to the start.  On numbers that are all less
than half the space ahead of one base it is the order of their offsets from the
base, for then no two of them are as far apart as half the space.  So keeping
the later one of two keeps the greatest offset, in whatever order the numbers
come; and from behind the latest of them, the distance to each grows with its
offset, down to the least distance that there is.

A tracker keeps the latest number that it took up, and sorts its offers by the
distance from the number behind it.  What becomes of refused packets, of
acknowledgements and of scans in between makes no difference.

`IsFurthest` is the number that all of this is about, and its lemma about two
lists is what an induction needs: the furthest of a list stands for the list.  So
a fold over the numbers can start from any of them, and the highest number of a
tracker, which is such a fold over what was taken up, is the furthest of those
numbers in any run.

Main statement: the order on such numbers, their latest one, and what a tracker
makes of it.
-/
import Mathlib.Order.Defs.Unbundled
import ReliableDatagram.Proofs.Sending.Scanning

namespace ReliableDatagram

namespace SeqNum

/-! ## The order of offsets -/

section Offsets

variable {base s t : SeqNum}

theorem offset_eq_sub (s t base : SeqNum) :
    s.offset t = (s.offset base + (0x100000000 - t.offset base)) % 0x100000000 := by
  have hplus := offset_of_plus s base (Nat.le_of_lt (offset_lt t base))
  rwa [plus_offset] at hplus

/-- Behind a number that is further ahead, a number is as far as their offsets are apart. -/
theorem offset_of_offset_le (h : s.offset base ≤ t.offset base) :
    t.offset s = t.offset base - s.offset base := by
  have hlt := offset_lt t base
  rw [offset_eq_sub t s base]
  omega

/-- Within half the space from one base, after means further ahead. -/
theorem isAfter_iff_offset_lt (hs : s.offset base < 0x80000000)
    (ht : t.offset base < 0x80000000) :
    s.isAfter t = true ↔ t.offset base < s.offset base := by
  rw [isAfter_iff, offset_eq_sub s t base]
  omega

theorem isBefore_iff_isAfter (hs : s.offset base < 0x80000000)
    (ht : t.offset base < 0x80000000) : s.isBefore t = true ↔ t.isAfter s = true := by
  rw [isAfter_iff_offset_lt ht hs, isBefore_iff, offset_eq_sub s t base]
  omega

-- At half the space apart each of two numbers is before the other, and neither is after.
example : let s : SeqNum := ⟨5⟩; let t : SeqNum := ⟨0x80000005⟩
    s.offset t = 0x80000000 ∧ s.isBefore t = true ∧ t.isBefore s = true ∧ s.isAfter t = false ∧
      t.isAfter s = false := by
  decide

end Offsets

/-! ## The latest number of a list -/

/-- The number of a list that is the furthest ahead of a base. -/
structure IsFurthest (base : SeqNum) (l : List SeqNum) (s : SeqNum) : Prop where
  mem : s ∈ l
  le : ∀ t ∈ l, t.offset base ≤ s.offset base

section IsFurthest

variable {base s t last : SeqNum} {l l' rest : List SeqNum}

theorem IsFurthest.congr (h : IsFurthest base l s) (hl : ∀ t, t ∈ l ↔ t ∈ l') :
    IsFurthest base l' s :=
  ⟨(hl s).mp h.mem, fun t ht => h.le t ((hl t).mpr ht)⟩

theorem IsFurthest.eq (hs : IsFurthest base l s) (ht : IsFurthest base l t) : s = t :=
  offset_inj (Nat.le_antisymm (ht.le s hs.mem) (hs.le t ht.mem))

/-- The number that is the furthest ahead stands for its whole list. -/
theorem IsFurthest.append (hs : IsFurthest base l s) (hlast : IsFurthest base (s :: rest) last) :
    IsFurthest base (l ++ rest) last := by
  refine ⟨?_, fun t ht => ?_⟩
  · rcases List.mem_cons.mp hlast.mem with rfl | hmem
    · exact List.mem_append_left _ hs.mem
    · exact List.mem_append_right _ hmem
  · rcases List.mem_append.mp ht with ht | ht
    · exact Nat.le_trans (hs.le t ht) (hlast.le s List.mem_cons_self)
    · exact hlast.le t (List.mem_cons_of_mem _ ht)

theorem isFurthest_singleton (base s : SeqNum) : IsFurthest base [s] s := by
  refine ⟨List.mem_singleton_self s, ?_⟩
  exact List.forall_mem_singleton.mpr (Nat.le_refl _)

theorem isFurthest_latest (hs : s.offset base < 0x80000000) (ht : t.offset base < 0x80000000) :
    IsFurthest base [s, t] (s.latest t) := by
  have hafter := isAfter_iff_offset_lt ht hs
  rw [latest]
  by_cases h : t.isAfter s = true
  · rw [if_pos h]
    have hlt := hafter.mp h
    refine ⟨List.mem_cons_of_mem _ List.mem_cons_self, ?_⟩
    exact List.forall_mem_cons.mpr
      ⟨Nat.le_of_lt hlt, List.forall_mem_singleton.mpr (Nat.le_refl _)⟩
  · rw [if_neg h]
    have hle := Nat.le_of_not_lt (mt hafter.mpr h)
    refine ⟨List.mem_cons_self, ?_⟩
    exact List.forall_mem_cons.mpr ⟨Nat.le_refl _, List.forall_mem_singleton.mpr hle⟩

theorem isFurthest_foldl_latest (h : ∀ t ∈ s :: rest, t.offset base < 0x80000000) :
    IsFurthest base (s :: rest) (rest.foldl latest s) := by
  induction rest generalizing s with
  | nil => exact isFurthest_singleton base s
  | cons t rest ih =>
      obtain ⟨hs, hrest⟩ := List.forall_mem_cons.mp h
      obtain ⟨ht, hrest⟩ := List.forall_mem_cons.mp hrest
      have hpair := isFurthest_latest hs ht
      have hlatest := h _ (List.mem_append_left rest hpair.mem)
      exact hpair.append (ih (List.forall_mem_cons.mpr ⟨hlatest, hrest⟩))

theorem exists_isFurthest (h : ∀ t ∈ l, t.offset base < 0x80000000) (hne : l ≠ []) :
    ∃ last, IsFurthest base l last := by
  cases l with
  | nil => exact absurd rfl hne
  | cons s rest => exact ⟨_, isFurthest_foldl_latest h⟩

end IsFurthest

end SeqNum

open SeqNum

/-! ## What a tracker took up -/

namespace TrackerEvent

/-- The number that a call took up. -/
def taken? : TrackerEvent → Option SeqNum
  | recorded p _ true => some p.seq
  | _ => none

/-- The numbers taken up in a history, in their order. -/
def takenNumbers (xs : List TrackerEvent) : List SeqNum := xs.filterMap taken?

theorem mem_takenNumbers {xs : List TrackerEvent} {p : Packet} {now : Instant}
    (h : recorded p now true ∈ xs) : p.seq ∈ takenNumbers xs :=
  List.mem_filterMap.mpr ⟨_, h, rfl⟩

end TrackerEvent

namespace Tracker

open TrackerEvent

section Taken

variable {t : Tracker}

theorem highest_call (t : Tracker) (c : TrackerCall) : (t.call c).2.highest =
    (t.call c).1.taken?.toList.foldl (fun h s => some (highestWith h s)) t.highest := by
  cases c with
  | record p now =>
      rw [call, record]
      split
      · rfl
      · rfl
  | acknowledge ack =>
      rw [call, acknowledge]
      split
      · rfl
      · rfl
  | scan now timeout => rfl

theorem highest_after (t : Tracker) (calls : List TrackerCall) : (t.after calls).highest =
    (takenNumbers (t.events calls)).foldl (fun h s => some (highestWith h s)) t.highest := by
  induction calls generalizing t with
  | nil => rfl
  | cons c rest ih =>
      rw [after, ih, highest_call, events, takenNumbers, takenNumbers, List.filterMap_cons]
      cases (t.call c).1.taken? with
      | none => rfl
      | some s => rfl

theorem foldl_highestWith_some (s : SeqNum) (l : List SeqNum) :
    l.foldl (fun h s => some (highestWith h s)) (some s) = some (l.foldl latest s) := by
  induction l generalizing s with
  | nil => rfl
  | cons u l ih => exact ih (s.latest u)

theorem eq_empty_of_new {slots : Nat} (h : new slots = .ok t) : t = ⟨slots, [], none⟩ := by
  rw [new] at h
  split at h
  · cases h
  · split at h
    · cases h
    · cases h
      rfl

theorem HasHistory.seq_mem_takenNumbers {xs : List TrackerEvent} (h : t.HasHistory xs)
    {u : Unacked} (hu : u ∈ t.entries) : u.packet.seq ∈ takenNumbers xs := by
  obtain ⟨f, hf, rfl⟩ := h.mem_entries.mp hu
  obtain ⟨front, p, now, rest, rfl, rfl⟩ := mem_flights.mp (mem_openFlights.mp hf).1
  exact mem_takenNumbers (List.mem_append_right _ List.mem_cons_self)

def numbers (ps : List (Packet × Instant)) : List SeqNum := ps.map (·.1.seq)

/-- The calls that record them one after the other. -/
def recordings (ps : List (Packet × Instant)) : List TrackerCall :=
  ps.map fun p => .record p.1 p.2

theorem takenNumbers_recordings {ps : List (Packet × Instant)}
    (hk : ∀ p ∈ ps, p.1.isKind .data = true) (hv : ∀ s ∈ numbers ps, t.isVacant s = true)
    (hd : ((numbers ps).map t.slotOf).Nodup) :
    takenNumbers (t.events (recordings ps)) = numbers ps := by
  induction ps generalizing t with
  | nil => rfl
  | cons p ps ih =>
      obtain ⟨hother, hrest⟩ := List.nodup_cons.mp hd
      have hkind := hk p List.mem_cons_self
      have hvacant := hv p.1.seq List.mem_cons_self
      have hslots : (t.record p.1 p.2).2.slotOf = t.slotOf := by
        funext s
        exact congrArg (s.word.toNat % ·) (slots_call t (.record p.1 p.2))
      have hnext := ih (t := (t.record p.1 p.2).2)
        (fun q hq => hk q (List.mem_cons_of_mem _ hq))
        (fun s hs => (isVacant_record hkind hvacant p.2 s).mpr
          ⟨fun heq => hother (heq ▸ List.mem_map_of_mem hs), hv s (List.mem_cons_of_mem _ hs)⟩)
        (by rwa [hslots])
      have htaken : (t.record p.1 p.2).1 = true := by
        rw [record_of_isVacant hkind hvacant]
      rw [recordings, List.map_cons, events, call, htaken]
      exact congrArg (p.1.seq :: ·) hnext

end Taken

end Tracker

/-! ## Main result -/

/-- A tracker that knows the latest number, and offers packets in the order of their offsets. -/
structure Tracker.KnowsLatest (t : Tracker) (base last : SeqNum) : Prop where
  highest : t.highest = some last
  scan : ∀ now timeout, (t.scan now timeout).1.Pairwise fun a b =>
    a.packet.seq.offset base < b.packet.seq.offset base

namespace SeqNum

/-- Serial order on the numbers of a list, seen from a base. -/
structure OrderedFrom (base : SeqNum) (l : List SeqNum) : Prop where
  order : IsStrictTotalOrder {s // s ∈ l} fun s t => s.1.isAfter t.1 = true
  isAfter_iff : ∀ s ∈ l, ∀ t ∈ l, (s.isAfter t = true ↔ t.offset base < s.offset base)
  isBefore_iff : ∀ s ∈ l, ∀ t ∈ l, (s.isBefore t = true ↔ t.isAfter s = true)

/-- What the number of a list that is the furthest ahead is to serial order. -/
structure LatestOf (base : SeqNum) (l : List SeqNum) (last : SeqNum) : Prop
    extends IsFurthest base l last where
  /-- Whichever number is the first, and in whatever order the others follow: it is what is left
  if the later one of two is kept. -/
  folded : ∀ s rest, (∀ t, t ∈ s :: rest ↔ t ∈ l) → rest.foldl latest s = last
  /-- The distance from the number behind it sorts offers by their offsets. -/
  sorted : ∀ offers : List Offer, (∀ o ∈ offers, o.packet.seq ∈ l) →
    (Offer.inOrder (some last) offers).Perm offers ∧
      (Offer.inOrder (some last) offers).Pairwise fun a b =>
        a.packet.seq.offset base ≤ b.packet.seq.offset base
  /-- A tracker knows it that took up these numbers, whatever else happened. -/
  taken : ∀ slots t calls, Tracker.new slots = .ok t →
    (∀ s, s ∈ TrackerEvent.takenNumbers (t.events calls) ↔ s ∈ l) →
      (t.after calls).KnowsLatest base last
  /-- DATA packets of these numbers are taken up in any order, if no two of them share a slot. -/
  recorded : ∀ slots t (ps : List (Packet × Instant)), Tracker.new slots = .ok t →
    (∀ p ∈ ps, p.1.isKind .data = true) → ((Tracker.numbers ps).map t.slotOf).Nodup →
    (∀ s, s ∈ Tracker.numbers ps ↔ s ∈ l) →
      (t.after (Tracker.recordings ps)).KnowsLatest base last

section Ahead

variable {base last : SeqNum} {l : List SeqNum}

theorem orderedFrom_of_ahead (h : ∀ s ∈ l, s.offset base < 0x80000000) :
    OrderedFrom base l := by
  have hiff : ∀ s t : {s // s ∈ l},
      s.1.isAfter t.1 = true ↔ t.1.offset base < s.1.offset base :=
    fun s t => isAfter_iff_offset_lt (h s.1 s.2) (h t.1 t.2)
  refine ⟨{ trichotomous := ?trichotomous, irrefl := ?irrefl, trans := ?trans }, ?after, ?before⟩
  case trichotomous =>
    intro s t hst hts
    have hle : s.1.offset base ≤ t.1.offset base := Nat.le_of_not_lt (mt (hiff s t).mpr hst)
    have hge : t.1.offset base ≤ s.1.offset base := Nat.le_of_not_lt (mt (hiff t s).mpr hts)
    exact Subtype.ext (offset_inj (Nat.le_antisymm hle hge))
  case irrefl =>
    intro s hs
    exact Nat.lt_irrefl _ ((hiff s s).mp hs)
  case trans =>
    intro s t u hst htu
    exact (hiff s u).mpr (Nat.lt_trans ((hiff t u).mp htu) ((hiff s t).mp hst))
  case after => exact fun s hs t ht => isAfter_iff_offset_lt (h s hs) (h t ht)
  case before => exact fun s hs t ht => isBefore_iff_isAfter (h s hs) (h t ht)

theorem IsFurthest.folded (hlast : IsFurthest base l last)
    (h : ∀ s ∈ l, s.offset base < 0x80000000) {s : SeqNum} {rest : List SeqNum}
    (hl : ∀ t, t ∈ s :: rest ↔ t ∈ l) : rest.foldl latest s = last := by
  have hfold := isFurthest_foldl_latest fun t ht => h t ((hl t).mp ht)
  exact (hfold.congr hl).eq hlast

/-- Behind the latest number, all others are less than half the space. -/
theorem IsFurthest.offset_lt (hlast : IsFurthest base l last)
    (h : ∀ s ∈ l, s.offset base < 0x80000000) {s : SeqNum} (hs : s ∈ l) :
    last.offset s < 0x80000000 := by
  have hbound := h last hlast.mem
  rw [offset_of_offset_le (hlast.le s hs)]
  omega

theorem IsFurthest.sorted (hlast : IsFurthest base l last)
    (h : ∀ s ∈ l, s.offset base < 0x80000000) {offers : List Offer}
    (hl : ∀ o ∈ offers, o.packet.seq ∈ l) :
    (Offer.inOrder (some last) offers).Pairwise fun a b =>
      a.packet.seq.offset base ≤ b.packet.seq.offset base := by
  refine (Offer.pairwise_inOrder last offers).imp_of_mem ?_
  intro a b ha hb hle
  have ha := hl a ((Offer.inOrder_perm _ _).mem_iff.mp ha)
  have hb := hl b ((Offer.inOrder_perm _ _).mem_iff.mp hb)
  have hale := hlast.le _ ha
  have hble := hlast.le _ hb
  rw [distance_next (hlast.offset_lt h ha), distance_next (hlast.offset_lt h hb),
    offset_of_offset_le hale, offset_of_offset_le hble] at hle
  omega

theorem IsFurthest.knowsLatest (hlast : IsFurthest base l last)
    (h : ∀ s ∈ l, s.offset base < 0x80000000) {slots : Nat} {t : Tracker}
    {calls : List TrackerCall} (hnew : Tracker.new slots = .ok t)
    (hl : ∀ s, s ∈ TrackerEvent.takenNumbers (t.events calls) ↔ s ∈ l) :
    (t.after calls).KnowsLatest base last := by
  have hempty := Tracker.eq_empty_of_new hnew
  have hhistory : (t.after calls).HasHistory (t.events calls) := by
    rw [hempty]
    exact (Tracker.hasHistory_empty slots).run calls
  have hhighest : (t.after calls).highest = some last := by
    rw [Tracker.highest_after]
    cases htaken : TrackerEvent.takenNumbers (t.events calls) with
    | nil =>
        have hmem := (hl last).mpr hlast.mem
        rw [htaken] at hmem
        cases hmem
    | cons s rest =>
        rw [htaken] at hl
        rw [hempty, ← hlast.folded h hl]
        exact Tracker.foldl_highestWith_some s rest
  refine ⟨hhighest, fun now timeout => ?_⟩
  have hheld : ∀ o ∈ ((t.after calls).scan now timeout).1, o.packet.seq ∈ l := by
    intro o ho
    obtain ⟨u, hu, -, rfl⟩ := Tracker.mem_scan.mp ho
    exact (hl _).mp (hhistory.seq_mem_takenNumbers hu)
  have hsorted : ((t.after calls).scan now timeout).1.Pairwise fun a b =>
      a.packet.seq.offset base ≤ b.packet.seq.offset base := by
    have hscan : ((t.after calls).scan now timeout).1 = Offer.inOrder (some last)
        ((t.after calls).entries.filterMap (·.offer? now timeout)) := by
      rw [Tracker.scan, hhighest]
    rw [hscan] at hheld ⊢
    exact hlast.sorted h fun o ho => hheld o ((Offer.inOrder_perm _ _).mem_iff.mpr ho)
  have hdistinct := List.pairwise_map.mp (hhistory.wellFormed.nodup_scan now timeout)
  -- in order and of different numbers, so strictly in order
  refine (hsorted.and hdistinct).imp ?_
  rintro a b ⟨hle, hne⟩
  exact Nat.lt_of_le_of_ne hle fun heq => hne (offset_inj heq)

end Ahead

/-- Serial order on numbers less than half the space ahead of a base is the order of their offsets,
and it leads everyone who keeps or sorts such numbers to the same latest one. -/
theorem orderedFrom_halfSpace {base : SeqNum} {l : List SeqNum}
    (h : ∀ s ∈ l, s.offset base < 0x80000000) :
    OrderedFrom base l ∧ (l ≠ [] → ∃ last, LatestOf base l last) := by
  refine ⟨orderedFrom_of_ahead h, fun hne => ?_⟩
  obtain ⟨last, hlast⟩ := exists_isFurthest h hne
  refine ⟨last, hlast, ?_, ?_, ?_, ?_⟩
  · exact fun s rest hl => hlast.folded h hl
  · exact fun offers hl => ⟨Offer.inOrder_perm _ _, hlast.sorted h hl⟩
  · exact fun slots t calls hnew hl => hlast.knowsLatest h hnew hl
  · intro slots t ps hnew hk hd hl
    have hvacant : ∀ s ∈ Tracker.numbers ps, t.isVacant s = true := by
      intro s _
      rw [Tracker.eq_empty_of_new hnew]
      rfl
    refine hlast.knowsLatest h hnew fun s => ?_
    rw [Tracker.takenNumbers_recordings hk hvacant hd]
    exact hl s

/-- Three packets about the greatest word, the last number as far ahead of the first as can be. -/
def spread : List (Packet × Instant) :=
  [(.data ⟨1⟩ [7], 0), (.data ⟨0x7ffffffd⟩ [8], 3), (.data ⟨0xfffffffe⟩ [9], 2)]

theorem orderedFrom_halfSpace_spread :
    let base : SeqNum := ⟨0xfffffffe⟩
    let l := Tracker.numbers spread
    ((∀ s ∈ l, s.offset base < 0x80000000) ∧ l ≠ []) ∧ OrderedFrom base l ∧
      LatestOf base l ⟨0x7ffffffd⟩ ∧ ∃ t, Tracker.new 8 = .ok t ∧
        (t.after (Tracker.recordings spread)).KnowsLatest base ⟨0x7ffffffd⟩ ∧
        ((t.after (Tracker.recordings spread)).scan 90 ⟨40⟩).1.length = 3 := by
  intro base l
  have hahead : ∀ s ∈ l, s.offset base < 0x80000000 := by decide
  have hne : l ≠ [] := by decide
  obtain ⟨hordered, hlatest⟩ := orderedFrom_halfSpace hahead
  obtain ⟨last, hlast⟩ := hlatest hne
  have heq : (⟨0x7ffffffd⟩ : SeqNum) = last :=
    hlast.folded ⟨1⟩ [⟨0x7ffffffd⟩, ⟨0xfffffffe⟩] fun _ => Iff.rfl
  subst heq
  refine ⟨⟨hahead, hne⟩, hordered, hlast, _, rfl, ?_, ?_⟩
  · exact hlast.recorded 8 _ spread rfl (by decide) (by decide) fun _ => Iff.rfl
  · rw [(Tracker.scan_perm _ _ _).length_eq]
    decide

end SeqNum

end ReliableDatagram
