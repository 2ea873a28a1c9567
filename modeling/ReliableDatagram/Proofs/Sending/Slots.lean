/-
What calls about one slot of a table come to.

A slot shows what was put into it last.  A call that has an entry to itself
checks it out and, unless the entry goes for good, in again; between the two
nobody else can see the slot, so what is left is one change of the slot or none.

Tables are equal if their slots are, as long as the slots are listed in order;
this is why some of the equations have the order as a hypothesis and why the
equations about lookups have none.  The last two lemmas give the calls that look
at an entry their final form: a change of one slot for an entry that is there,
nothing for a vacant slot, and waiting for a marked one.
-/
import ReliableDatagram.Proofs.Assoc
import ReliableDatagram.Sending.SlotTable

namespace ReliableDatagram.SlotTable

variable {α β : Type}

theorem slotOf_of_size {t t' : SlotTable α} (h : t'.size = t.size) (key : Nat) :
    t'.slotOf key = t.slotOf key := congrArg (key % ·) h

theorem lookup_occupy (t : SlotTable α) (key : Nat) (o : Occupant α) (slot : Nat) :
    (t.occupy key o).occupied.lookup slot =
      if slot = t.slotOf key then some o else t.occupied.lookup slot :=
  Assoc.lookup_insert _ _ _ _

theorem lookup_vacate (t : SlotTable α) (key slot : Nat) :
    (t.vacate key).occupied.lookup slot =
      if slot = t.slotOf key then none else t.occupied.lookup slot :=
  Assoc.lookup_erase _ _ _

theorem occupy_occupy (t : SlotTable α) (key : Nat) (first second : Occupant α) :
    (t.occupy key first).occupy key second = t.occupy key second := by
  simp only [occupy, slotOf, Assoc.insert_insert]

theorem occupy_of_occupant? {t : SlotTable α} {key : Nat} {o : Occupant α}
    (ha : Assoc.Ascending t.occupied) (ho : t.occupant? key = some o) : t.occupy key o = t := by
  have hm := (Assoc.lookup_eq_some_iff ha).mp ho
  rw [occupy, Assoc.insert_eq_self ha hm]

theorem checkIn_occupy {t : SlotTable α} {key : Nat} {v : α} (ha : Assoc.Ascending t.occupied)
    (ho : t.occupant? key = some (.entry v)) :
    (t.occupy key .checkedOut).checkIn ⟨key, v⟩ = t := by
  rw [checkIn, occupy_occupy, occupy_of_occupant? ha ho]

theorem vacate_occupy (t : SlotTable α) (key : Nat) (o : Occupant α) :
    (t.occupy key o).vacate key = t.vacate key := by
  simp only [vacate, occupy, slotOf, Assoc.erase_insert]

/-- What becomes of an entry that a call has to itself for a while. -/
theorem withEntry_eq (t : SlotTable α) (key : Nat) (f : α → β × α) :
    t.withEntry key f =
      match t.occupant? key with
      | none => .done (none, t)
      | some (.entry v) => .done (some (f v).1, t.occupy key (.entry (f v).2))
      | some .checkedOut => .waits := by
  cases ho : t.occupant? key with
  | none => simp only [withEntry, checkOut, ho, Attempt.map]
  | some o =>
      cases o with
      | entry v => simp only [withEntry, checkOut, ho, Attempt.map, checkIn, occupy_occupy]
      | checkedOut => simp only [withEntry, checkOut, ho, Attempt.map]

theorem removeIf_eq {t : SlotTable α} (ha : Assoc.Ascending t.occupied) (key : Nat)
    (matching : α → Bool) :
    t.removeIf key matching =
      match t.occupant? key with
      | none => .done (none, t)
      | some (.entry v) =>
        if matching v then .done (some v, t.vacate key) else .done (none, t)
      | some .checkedOut => .waits := by
  cases ho : t.occupant? key with
  | none => simp only [removeIf, checkOut, ho, Attempt.map]
  | some o =>
      cases o with
      | entry v =>
          simp only [removeIf, checkOut, ho, Attempt.map, remove, checkIn_occupy ha ho,
            vacate_occupy]
          split <;> rfl
      | checkedOut => simp only [removeIf, checkOut, ho, Attempt.map]

end ReliableDatagram.SlotTable
