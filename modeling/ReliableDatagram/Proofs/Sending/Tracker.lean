/-
What a tracker holds, as a set of packets.

At most one packet sits in a slot, so a packet is found by its number exactly
if the tracker holds it, and each operation is described by what it does to
the packets held: recording adds one, an acknowledgement takes away one, and
a scan leaves every packet where it is.

`WellFormed` says that no two packets share a slot, and that some number was
recorded if anything is held.  Recording keeps it since it looks into the slot
first.  Everything else follows from it.  Looking a packet up goes by its slot,
and the number is compared afterwards; under the invariant the two tests are one,
and an acknowledgement, which erases the first packet in the slot, is the same as
filtering one number out.  That form is the one which other modules use, because a
filter can be moved past any other filter or map.

A scan changes times and counts but no packet, so it keeps whatever is known of
numbers and slots.
-/
import Mathlib.Data.List.Pairwise
import ReliableDatagram.Sending.Tracker

namespace ReliableDatagram.Tracker

/-- No two packets share a slot, and something was recorded if anything is held. -/
structure WellFormed (t : Tracker) : Prop where
  distinct : t.entries.Pairwise fun u v => t.slotOf u.packet.seq ≠ t.slotOf v.packet.seq
  recorded : t.highest = none → t.entries = []

section WellFormed

variable {t : Tracker}

theorem WellFormed.eq_of_slotOf (h : t.WellFormed) {u v : Unacked} (hu : u ∈ t.entries)
    (hv : v ∈ t.entries) (hs : t.slotOf u.packet.seq = t.slotOf v.packet.seq) : u = v := by
  have : Std.Symm fun u v : Unacked => t.slotOf u.packet.seq ≠ t.slotOf v.packet.seq :=
    ⟨fun _ _ => Ne.symm⟩
  exact Decidable.byContradiction fun hne => h.distinct.forall hu hv hne hs

theorem WellFormed.nodup_seq (h : t.WellFormed) : (t.entries.map (·.packet.seq)).Nodup :=
  List.pairwise_map.mpr (h.distinct.imp fun hne heq => hne (by rw [heq]))

theorem occupant?_eq_some_iff (h : t.WellFormed) {s : SeqNum} {u : Unacked} :
    t.occupant? s = some u ↔ u ∈ t.entries ∧ t.slotOf u.packet.seq = t.slotOf s := by
  constructor
  · intro ho
    exact ⟨List.mem_of_find?_eq_some ho, by simpa [sharesSlot] using List.find?_some ho⟩
  · rintro ⟨hm, hs⟩
    cases ho : t.occupant? s with
    | none =>
        have := List.find?_eq_none.mp ho u hm
        simp [sharesSlot, hs] at this
    | some v =>
        have hv : t.slotOf v.packet.seq = t.slotOf s := by
          simpa [sharesSlot] using List.find?_some ho
        rw [h.eq_of_slotOf (List.mem_of_find?_eq_some ho) hm (hv.trans hs.symm)]

theorem isVacant_iff {s : SeqNum} :
    t.isVacant s = true ↔ ∀ u ∈ t.entries, t.slotOf u.packet.seq ≠ t.slotOf s := by
  simp [isVacant, occupant?, sharesSlot]

/-- A packet is found under its own number and under no other. -/
theorem find?_eq_some_iff (h : t.WellFormed) {s : SeqNum} {u : Unacked} :
    t.find? s = some u ↔ u ∈ t.entries ∧ u.packet.seq = s := by
  simp only [find?, Option.filter_eq_some_iff, occupant?_eq_some_iff h, beq_iff_eq]
  constructor
  · rintro ⟨⟨hm, -⟩, hs⟩
    exact ⟨hm, hs⟩
  · rintro ⟨hm, hs⟩
    exact ⟨⟨hm, by rw [hs]⟩, hs⟩

theorem find?_eq_none_iff (h : t.WellFormed) {s : SeqNum} :
    t.find? s = none ↔ ∀ u ∈ t.entries, u.packet.seq ≠ s := by
  rw [Option.eq_none_iff_forall_ne_some]
  constructor
  · intro hn u hm hs
    exact hn u ((find?_eq_some_iff h).mpr ⟨hm, hs⟩)
  · intro hn u hf
    obtain ⟨hm, hs⟩ := (find?_eq_some_iff h).mp hf
    exact hn u hm hs

theorem isUnacked_iff (h : t.WellFormed) {s : SeqNum} :
    t.isUnacked s = true ↔ ∃ u ∈ t.entries, u.packet.seq = s := by
  simp only [isUnacked, Option.isSome_iff_exists, find?_eq_some_iff h]

end WellFormed

theorem wellFormed_empty (slots : Nat) : WellFormed ⟨slots, [], none⟩ :=
  ⟨List.Pairwise.nil, fun _ => rfl⟩

/-! ## Recording -/

theorem record_of_isVacant {t : Tracker} {p : Packet} (hk : p.isKind .data = true)
    (hv : t.isVacant p.seq = true) (now : Instant) :
    t.record p now = (true, { t with
      entries := .sent p now :: t.entries
      highest := some (.highestWith t.highest p.seq) }) := by
  simp [record, hk, hv]

theorem record_of_not_isVacant {t : Tracker} {p : Packet} (hv : t.isVacant p.seq = false)
    (now : Instant) : t.record p now = (false, t) := by
  simp [record, hv]

theorem isVacant_record {t : Tracker} {p : Packet} (hk : p.isKind .data = true)
    (hv : t.isVacant p.seq = true) (now : Instant) (s : SeqNum) :
    (t.record p now).2.isVacant s = true ↔
      t.slotOf p.seq ≠ t.slotOf s ∧ t.isVacant s = true := by
  rw [record_of_isVacant hk hv, isVacant_iff, isVacant_iff, List.forall_mem_cons]
  rfl

theorem WellFormed.record {t : Tracker} (h : t.WellFormed) (p : Packet) (now : Instant) :
    (t.record p now).2.WellFormed := by
  unfold Tracker.record
  split
  · rename_i hc
    rw [Bool.and_eq_true] at hc
    refine ⟨List.pairwise_cons.mpr ⟨?_, h.distinct⟩, fun hn => nomatch hn⟩
    intro u hu
    exact Ne.symm (isVacant_iff.mp hc.2 u hu)
  · exact h

/-! ## Acknowledging -/

theorem eraseP_eq_filter {α : Type} {p : α → Bool} {l : List α}
    (h : l.Pairwise fun a b => p a = true → p b = false) : l.eraseP p = l.filter (! p ·) := by
  induction l with
  | nil => rfl
  | cons a l ih =>
      obtain ⟨ha, hl⟩ := List.pairwise_cons.mp h
      rw [List.eraseP_cons, List.filter_cons]
      cases hp : p a with
      | false => simp [ih hl]
      | true =>
          have : l.filter (! p ·) = l := by
            rw [List.filter_eq_self]
            intro b hb
            simp [ha b hb hp]
          simp [this]

theorem eraseP_sharesSlot {t : Tracker} (h : t.WellFormed) (s : SeqNum) :
    t.entries.eraseP (t.sharesSlot s) = t.entries.filter (! t.sharesSlot s ·) := by
  refine eraseP_eq_filter (h.distinct.imp ?_)
  intro u v hne hu
  simp only [sharesSlot, beq_iff_eq, beq_eq_false_iff_ne] at *
  exact fun hv => hne (hu.trans hv.symm)

theorem acknowledge_of_find?_none {t : Tracker} {ack : SeqNum} (h : t.find? ack.prev = none) :
    t.acknowledge ack = (none, t) := by
  simp [acknowledge, h]

theorem acknowledge_of_find?_some {t : Tracker} (hw : t.WellFormed) {ack : SeqNum} {u : Unacked}
    (h : t.find? ack.prev = some u) :
    t.acknowledge ack =
      (some u, { t with entries := t.entries.filter (! t.sharesSlot ack.prev ·) }) := by
  simp [acknowledge, h, eraseP_sharesSlot hw]

theorem answer_acknowledge (t : Tracker) (ack : SeqNum) :
    (t.acknowledge ack).1 = t.find? ack.prev := by
  rw [acknowledge]
  split
  · next hf => rw [hf]
  · next hf => rw [hf]

theorem WellFormed.sharesSlot_eq {t : Tracker} (hw : t.WellFormed) {s : SeqNum} {u v : Unacked}
    (hf : t.find? s = some u) (hv : v ∈ t.entries) :
    (! t.sharesSlot s v) = (v.packet.seq != s) := by
  obtain ⟨hu, hseq⟩ := (find?_eq_some_iff hw).mp hf
  refine congrArg not (Bool.eq_iff_iff.mpr ?_)
  rw [sharesSlot, beq_iff_eq, beq_iff_eq, ← hseq]
  exact ⟨fun hs => by rw [hw.eq_of_slotOf hv hu hs], fun hs => by rw [hs]⟩

/-- An acknowledgement leaves exactly the packets with other numbers. -/
theorem WellFormed.entries_acknowledge {t : Tracker} (hw : t.WellFormed) (ack : SeqNum) :
    (t.acknowledge ack).2.entries = t.entries.filter fun u => u.packet.seq != ack.prev := by
  cases hf : t.find? ack.prev with
  | none =>
      rw [acknowledge_of_find?_none hf]
      refine (List.filter_eq_self.mpr fun u hu => ?_).symm
      exact bne_iff_ne.mpr ((find?_eq_none_iff hw).mp hf u hu)
  | some u =>
      rw [acknowledge_of_find?_some hw hf]
      exact List.filter_congr fun v hv => hw.sharesSlot_eq hf hv

theorem mem_acknowledge {t : Tracker} (hw : t.WellFormed) {ack : SeqNum} {v : Unacked} :
    v ∈ (t.acknowledge ack).2.entries ↔ v ∈ t.entries ∧ v.packet.seq ≠ ack.prev := by
  rw [hw.entries_acknowledge, List.mem_filter, bne_iff_ne]

theorem WellFormed.acknowledge_eq {t : Tracker} (hw : t.WellFormed) (ack : SeqNum) :
    (t.acknowledge ack).2 =
      { t with entries := t.entries.filter fun u => u.packet.seq != ack.prev } := by
  rw [← hw.entries_acknowledge ack, Tracker.acknowledge]
  split
  · rfl
  · rfl

theorem WellFormed.acknowledge {t : Tracker} (h : t.WellFormed) (ack : SeqNum) :
    (t.acknowledge ack).2.WellFormed := by
  cases hf : t.find? ack.prev with
  | none => rwa [acknowledge_of_find?_none hf]
  | some u =>
      rw [acknowledge_of_find?_some h hf]
      exact ⟨h.distinct.filter _, fun hn => by simp [h.recorded hn]⟩

theorem isUnacked_acknowledge {t : Tracker} (hw : t.WellFormed) (ack s : SeqNum) :
    (t.acknowledge ack).2.isUnacked s = (t.isUnacked s && s != ack.prev) := by
  rw [Bool.eq_iff_iff, Bool.and_eq_true, bne_iff_ne, isUnacked_iff (hw.acknowledge ack),
    isUnacked_iff hw]
  constructor
  · rintro ⟨u, hu, rfl⟩
    obtain ⟨hm, hne⟩ := (mem_acknowledge hw).mp hu
    exact ⟨⟨u, hm, rfl⟩, hne⟩
  · rintro ⟨⟨u, hm, rfl⟩, hne⟩
    exact ⟨u, (mem_acknowledge hw).mpr ⟨hm, hne⟩, rfl⟩

theorem size_acknowledge {t : Tracker} {ack : SeqNum} {u : Unacked}
    (h : (t.acknowledge ack).1 = some u) : (t.acknowledge ack).2.size + 1 = t.size := by
  unfold acknowledge at *
  split at h
  · cases h
  · rename_i v hf
    simp only [size]
    have hm := List.mem_of_find?_eq_some (Option.filter_eq_some_iff.mp hf).1
    have hp := List.find?_some (Option.filter_eq_some_iff.mp hf).1
    have := List.length_eraseP_of_mem hm hp
    have := List.length_pos_of_mem hm
    omega

/-! ## Scanning -/

@[simp] theorem packet_renewed (u : Unacked) (now : Instant) (timeout : Duration) :
    (u.renewed now timeout).packet = u.packet := by
  unfold Unacked.renewed
  split
  · rfl
  · rfl

theorem WellFormed.scan {t : Tracker} (h : t.WellFormed) (now : Instant) (timeout : Duration) :
    (t.scan now timeout).2.WellFormed := by
  refine ⟨?_, fun hn => by simp [Tracker.scan, h.recorded hn]⟩
  simp only [Tracker.scan, List.pairwise_map, packet_renewed]
  exact h.distinct

end ReliableDatagram.Tracker
