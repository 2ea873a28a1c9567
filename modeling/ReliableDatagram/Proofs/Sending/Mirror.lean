/-
A slot table in place of a tracker.

The packets of a tracker, each under its slot and in slot order, are the
entries of the table.  So a lookup answers alike, a packet recorded or
acknowledged is inserted or removed on both sides, and a scan finds the same
offers, only in another order.

`Mirrors` compares by permutation, and its two halves do different work.  That the
slots ascend makes the table a function of its pairs.  That the pairs are those of
the tracker ties it to the packets, whatever the order in which the tracker lists
them.  No entry is checked out in such a table, for a tracker knows no marks; so
none of its operations ever waits, and each `Attempt` can be opened.

The lemmas come one for each operation and have the same shape: under the relation
the operation on the table answers what the tracker answers, and the relation
holds again.  They are all that the lock-free engine needs to know of its table.
-/
import ReliableDatagram.Proofs.Sending.Offers
import ReliableDatagram.Proofs.Sending.Slots
import ReliableDatagram.Proofs.Sending.Tracker

namespace ReliableDatagram

/-- A packet as the entry of its slot. -/
def Tracker.slotted (t : Tracker) (u : Unacked) : Nat × Occupant Unacked :=
  (t.slotOf u.packet.seq, .entry u)

namespace SlotTable

/-- The table's entries are the tracker's packets, each in its slot. -/
structure Mirrors (table : SlotTable Unacked) (t : Tracker) : Prop where
  size : table.size = t.slots
  ascending : Assoc.Ascending table.occupied
  perm : table.occupied.Perm (t.entries.map t.slotted)

theorem mirrors_new (slots : Nat) : Mirrors ⟨slots, []⟩ ⟨slots, [], none⟩ :=
  ⟨rfl, List.Pairwise.nil, .refl _⟩

section Mirrors

variable {table : SlotTable Unacked} {t : Tracker}

theorem Mirrors.slotOf (h : table.Mirrors t) (s : SeqNum) :
    table.slotOf s.word.toNat = t.slotOf s := by
  rw [SlotTable.slotOf, Tracker.slotOf, h.size]

theorem Mirrors.mem_iff (h : table.Mirrors t) {slot : Nat} {o : Occupant Unacked} :
    (slot, o) ∈ table.occupied ↔
      ∃ u ∈ t.entries, t.slotOf u.packet.seq = slot ∧ o = .entry u := by
  rw [h.perm.mem_iff, List.mem_map]
  constructor
  · rintro ⟨u, hu, heq⟩
    exact ⟨u, hu, congrArg Prod.fst heq, (congrArg Prod.snd heq).symm⟩
  · rintro ⟨u, hu, rfl, rfl⟩
    exact ⟨u, hu, rfl⟩

theorem Mirrors.occupant? (h : table.Mirrors t) (hw : t.WellFormed) (s : SeqNum) :
    table.occupant? s.word.toNat = (t.occupant? s).map .entry := by
  apply Option.ext
  intro o
  rw [SlotTable.occupant?, Assoc.lookup_eq_some_iff h.ascending, h.mem_iff, h.slotOf,
    Option.map_eq_some_iff]
  constructor
  · rintro ⟨u, hu, hs, rfl⟩
    exact ⟨u, (Tracker.occupant?_eq_some_iff hw).mpr ⟨hu, hs⟩, rfl⟩
  · rintro ⟨u, ho, rfl⟩
    obtain ⟨hu, hs⟩ := (Tracker.occupant?_eq_some_iff hw).mp ho
    exact ⟨u, hu, hs, rfl⟩

theorem Mirrors.isVacant (h : table.Mirrors t) (hw : t.WellFormed) (s : SeqNum) :
    table.isVacant s.word.toNat = t.isVacant s := by
  simp [SlotTable.isVacant, Tracker.isVacant, h.occupant? hw]

/-! ## Inserting -/

theorem Mirrors.record (h : table.Mirrors t) (hw : t.WellFormed) {p : Packet}
    (hv : t.isVacant p.seq = true) (now : Instant) (highest : Option SeqNum) :
    ∃ table', table.tryInsert p.seq.word.toNat (.sent p now) = .ok table' ∧
      table'.Mirrors { t with entries := .sent p now :: t.entries, highest } := by
  refine ⟨table.occupy p.seq.word.toNat (.entry (.sent p now)), ?_, ?_⟩
  · rw [tryInsert, h.isVacant hw, if_pos hv]
  · refine ⟨h.size, h.ascending.insert _ _, ?_⟩
    have hnew : ∀ entry ∈ table.occupied, entry.1 ≠ table.slotOf p.seq.word.toNat := by
      rintro ⟨slot, o⟩ hm heq
      obtain ⟨u, hu, hs, -⟩ := h.mem_iff.mp hm
      refine Tracker.isVacant_iff.mp hv u hu ?_
      rw [hs, ← h.slotOf]
      exact heq
    refine (Assoc.insert_perm _ hnew).trans ?_
    rw [h.slotOf]
    exact h.perm.cons _

theorem Mirrors.tryInsert_of_not_isVacant (h : table.Mirrors t) (hw : t.WellFormed) {s : SeqNum}
    (hv : t.isVacant s = false) (u : Unacked) :
    table.tryInsert s.word.toNat u = .error u := by
  rw [tryInsert, h.isVacant hw, hv]
  rfl

/-! ## Checking out -/

theorem Mirrors.removeIf_of_find?_none (h : table.Mirrors t) (hw : t.WellFormed) {s : SeqNum}
    (hf : t.find? s = none) :
    table.removeIf s.word.toNat (·.packet.seq == s) = .done (none, table) := by
  have hocc := h.occupant? hw s
  cases ho : t.occupant? s with
  | none =>
      rw [ho] at hocc
      simp [SlotTable.removeIf, checkOut, hocc, Attempt.map]
  | some u =>
      rw [ho] at hocc
      have hs : u.packet.seq ≠ s := by simpa [Tracker.find?, ho, Option.filter] using hf
      simp [SlotTable.removeIf, checkOut, hocc, Attempt.map, hs,
        checkIn_occupy h.ascending hocc]

theorem Mirrors.removeIf_of_find?_some (h : table.Mirrors t) (hw : t.WellFormed) {s : SeqNum}
    {u : Unacked} (hf : t.find? s = some u) :
    table.removeIf s.word.toNat (·.packet.seq == s) =
      .done (some u, table.vacate s.word.toNat) := by
  obtain ⟨ho, hs⟩ := Option.filter_eq_some_iff.mp hf
  have hocc := h.occupant? hw s
  rw [ho] at hocc
  simp only [beq_iff_eq] at hs
  simp [SlotTable.removeIf, checkOut, hocc, Attempt.map, hs, remove, vacate_occupy]

theorem Mirrors.removeIf (h : table.Mirrors t) (hw : t.WellFormed) (ack : SeqNum) :
    ∃ table', table.removeIf ack.prev.word.toNat (·.packet.seq == ack.prev) =
        .done ((t.acknowledge ack).1, table') ∧ table'.Mirrors (t.acknowledge ack).2 := by
  cases hf : t.find? ack.prev with
  | none =>
      rw [Tracker.acknowledge_of_find?_none hf]
      exact ⟨table, h.removeIf_of_find?_none hw hf, h⟩
  | some u =>
      rw [Tracker.acknowledge_of_find?_some hw hf]
      refine ⟨_, h.removeIf_of_find?_some hw hf, h.size, ?_, ?_⟩
      · exact h.ascending.erase _
      · rw [vacate, h.slotOf]
        refine (h.perm.filter _).trans ?_
        rw [List.filter_map]
        exact .refl _

theorem Mirrors.withEntry (h : table.Mirrors t) (hw : t.WellFormed) {α : Type} (s : SeqNum)
    (f : Unacked → α) :
    ((table.withEntry s.word.toNat
      fun u => (if u.packet.seq = s then some (f u) else none, u)).getD (none, table)).1.join =
      (t.find? s).map f := by
  have hocc := h.occupant? hw s
  cases ho : t.occupant? s with
  | none =>
      rw [ho] at hocc
      simp [SlotTable.withEntry, checkOut, hocc, Attempt.map, Attempt.getD, Tracker.find?, ho]
  | some u =>
      rw [ho] at hocc
      by_cases hs : u.packet.seq = s
      all_goals
        simp [SlotTable.withEntry, checkOut, hocc, Attempt.map, Attempt.getD, Tracker.find?, ho,
          hs, Option.filter]

/-! ## Visiting -/

theorem Mirrors.anyCheckedOut (h : table.Mirrors t) : table.anyCheckedOut = false := by
  rw [SlotTable.anyCheckedOut, List.any_eq_false]
  rintro ⟨slot, o⟩ hm
  obtain ⟨u, -, -, rfl⟩ := h.mem_iff.mp hm
  simp [Occupant.isCheckedOut]

theorem Mirrors.entries_perm (h : table.Mirrors t) : table.entries.Perm t.entries := by
  refine (h.perm.filterMap _).trans ?_
  rw [List.filterMap_map]
  have : ((fun slot : Nat × Occupant Unacked => slot.2.value?) ∘ t.slotted) = some := rfl
  rw [this, List.filterMap_some]

/-- A scan of the tracker is a visit to every entry of the table. -/
theorem Mirrors.visit (h : table.Mirrors t) (now : Instant) (timeout : Duration) :
    ∃ found table', table.visit (fun u => (u.offer? now timeout, u.renewed now timeout)) =
        .done (found, table') ∧
      (found.filterMap id).Perm (t.entries.filterMap (·.offer? now timeout)) ∧
      table'.Mirrors (t.scan now timeout).2 := by
  refine ⟨table.entries.map (·.offer? now timeout),
    ⟨table.size, table.occupied.map fun slot => (slot.1, slot.2.map (·.renewed now timeout))⟩,
    ?_, ?_, h.size, ?_, ?_⟩
  · rw [SlotTable.visit, h.anyCheckedOut]
    rfl
  · rw [List.filterMap_map]
    exact h.entries_perm.filterMap _
  · exact List.pairwise_map.mpr h.ascending
  · refine (h.perm.map _).trans ?_
    simp only [Tracker.scan, List.map_map]
    refine .of_eq (List.map_congr_left ?_)
    intro u _
    simp only [Function.comp, Tracker.slotted, Occupant.map, Tracker.packet_renewed]
    rfl

end Mirrors

end SlotTable

end ReliableDatagram
