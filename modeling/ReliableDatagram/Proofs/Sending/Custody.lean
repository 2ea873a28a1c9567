/-
A table of slots and the guards that are open on it.

Table and guards are compared with the record of all values ever put in.  Both
are looked up slot by slot: a slot of the table shows the entry or the mark of
the deposit that is there, and a guard is open on exactly the slots whose
deposit is in a guard.  Each call keeps the two in step and answers what the
record answers.

Guards are values that a caller holds outside of the table, so the table alone is
not the whole state.  `Custody` puts the open guards beside it, under their slots;
calls through a guard find it there, and there is at most one for a slot.  The
values of open guards may have been changed already, and the record knows the
changed value.

`Records` has one part for each of the two lookups.  Since every call but a walk
is about one slot, keeping it means showing the change at that slot and that every
other slot is as it was.  The record serves such a call in one of three cases, and
`serve_entry` and `serve_guard` state for the two kinds of call what has to be
shown in each; the lemmas for the single calls fill that in.
-/
import ReliableDatagram.Proofs.Sending.Ledger
import ReliableDatagram.Proofs.Sending.Walking

namespace ReliableDatagram

/-- A table and the guards that are open on it. -/
structure Custody (α : Type) where
  table : SlotTable α
  /-- The open guards by their slots. -/
  guards : List (Nat × Guard α)

namespace Custody

variable {α β : Type}

/-- The guard that is open on the slot of a key. -/
def guard? (c : Custody α) (key : UInt32) : Option (Guard α) :=
  c.guards.lookup (c.table.slotOf key.toNat)

/-- A guard open on its slot. -/
def hold (c : Custody α) (g : Guard α) (table : SlotTable α) : Custody α :=
  ⟨table, Assoc.insert (c.table.slotOf g.key) g c.guards⟩

/-- The end of the guard on the slot of a key. -/
def close (c : Custody α) (key : UInt32) (table : SlotTable α) : Custody α :=
  ⟨table, Assoc.erase (c.table.slotOf key.toNat) c.guards⟩

/-- What a call that may have to wait comes to. -/
def settle (c : Custody α) {γ : Type} (answer : γ → TableAnswer α β) :
    Attempt (γ × SlotTable α) → TableAnswer α β × Custody α
  | .waits => (.waits, c)
  | .done (result, table) => (answer result, { c with table := table })

def call (c : Custody α) : TableCall α β → TableAnswer α β × Custody α
  | .tryInsert key v =>
    match c.table.tryInsert key.toNat v with
    | .ok table => (.inserted (.ok ()), { c with table := table })
    | .error v => (.inserted (.error v), c)
  | .isVacant key => (.vacant (c.table.isVacant key.toNat), c)
  | .take key => c.settle .handedOut (c.table.take key.toNat)
  | .removeIf key matching => c.settle .handedOut (c.table.removeIf key.toNat matching)
  | .withEntry key f => c.settle .found (c.table.withEntry key.toNat f)
  | .checkOut key =>
    match c.table.checkOut key.toNat with
    | .waits => (.waits, c)
    | .done (none, table) => (.opened none, { c with table := table })
    | .done (some g, table) => (.opened g.value, c.hold g table)
  | .use key f =>
    match c.guard? key with
    | none => (.found none, c)
    | some g => (.found (f g.value).1, c.hold { g with value := (f g.value).2 } c.table)
  | .drop key =>
    match c.guard? key with
    | none => (.dropped false, c)
    | some g => (.dropped true, c.close key (c.table.checkIn g))
  | .remove key =>
    match c.guard? key with
    | none => (.handedOut none, c)
    | some g => (.handedOut (c.table.remove g).1, c.close key (c.table.remove g).2)
  | .forEach start f =>
    let w := c.table.walkFrom start f
    (.visited w.found w.waitsAt, { c with table := w.table })

def answers (c : Custody α) : List (TableCall α β) → List (TableAnswer α β)
  | [] => []
  | first :: rest => (c.call first).1 :: (c.call first).2.answers rest

def after (c : Custody α) : List (TableCall α β) → Custody α
  | [] => c
  | first :: rest => (c.call first).2.after rest

end Custody

/-! ## The record of a table -/

/-- What a slot shows of a value that belongs to it. -/
def Place.occupant? {α : Type} : Place → α → Option (Occupant α)
  | slot, v => some (.entry v)
  | guard, _ => some .checkedOut
  | outside, _ => none

namespace Custody

variable {α β : Type}

/-- Table and guards, slot by slot, as the record says. -/
structure Records (c : Custody α) (l : Ledger α) : Prop where
  size : c.table.size = l.size
  pos : 0 < l.size
  sound : l.Sound
  tidy : c.table.Tidy
  ascending : Assoc.Ascending c.guards
  occupant : ∀ slot, c.table.occupied.lookup slot =
    (l.current? slot).bind fun d => d.place.occupant? d.value
  guard : ∀ slot, (c.guards.lookup slot).map (·.value) =
    (l.current? slot).bind (·.valueIn? .guard)
  /-- A guard was opened with a key of its slot. -/
  keys : ∀ slot g, c.guards.lookup slot = some g → c.table.slotOf g.key = slot

section Records

variable {c : Custody α} {l : Ledger α} {key : UInt32} {d : Deposit α}

theorem Records.slotOf (h : c.Records l) (key : UInt32) :
    c.table.slotOf key.toNat = l.slotOf key := by
  rw [SlotTable.slotOf, Ledger.slotOf, h.size]

theorem Records.occupant? (h : c.Records l) (key : UInt32) :
    c.table.occupant? key.toNat =
      (l.current? (l.slotOf key)).bind fun d => d.place.occupant? d.value := by
  rw [SlotTable.occupant?, h.slotOf, h.occupant]

theorem Records.lookup_of_current? (h : c.Records l) {slot : Nat} (hd : l.current? slot = some d) :
    c.table.occupied.lookup slot = d.place.occupant? d.value := by
  rw [h.occupant, hd, Option.bind_some]

theorem Records.tidy_occupy (h : c.Records l) (key : UInt32) (o : Occupant α) :
    (c.table.occupy key.toNat o).Tidy :=
  h.tidy.occupy (h.size ▸ h.pos) (c.table.slotOf_toNat_lt key) o

theorem Records.isVacant (h : c.Records l) (key : UInt32) :
    c.table.isVacant key.toNat = (l.current? (l.slotOf key)).isNone := by
  rw [SlotTable.isVacant, h.occupant?]
  cases hd : l.current? (l.slotOf key) with
  | none => rfl
  | some d =>
      rcases Ledger.place_of_current? hd with hp | hp
      · simp [hp, Place.occupant?]
      · simp [hp, Place.occupant?]

theorem Records.guard?_of_ne (h : c.Records l) (hd : l.current? (l.slotOf key) = some d)
    (hp : d.place ≠ .guard) : c.guard? key = none := by
  have hg := h.guard (l.slotOf key)
  rw [hd, Option.bind_some, Deposit.valueIn?, if_neg hp, Option.map_eq_none_iff] at hg
  rw [guard?, h.slotOf, hg]

theorem Records.guard?_of_none (h : c.Records l) (hd : l.current? (l.slotOf key) = none) :
    c.guard? key = none := by
  have hg := h.guard (l.slotOf key)
  rw [hd, Option.bind_none, Option.map_eq_none_iff] at hg
  rw [guard?, h.slotOf, hg]

theorem Records.guard?_of_guard (h : c.Records l) (hd : l.current? (l.slotOf key) = some d)
    (hp : d.place = .guard) :
    ∃ g, c.guard? key = some g ∧ g.value = d.value ∧ c.table.slotOf g.key = l.slotOf key := by
  have hg := h.guard (l.slotOf key)
  rw [hd, Option.bind_some, Deposit.valueIn?, if_pos hp, Option.map_eq_some_iff] at hg
  obtain ⟨g, hg, hv⟩ := hg
  refine ⟨g, ?_, hv, h.keys _ g hg⟩
  rw [guard?, h.slotOf, hg]

theorem Records.amend (h : c.Records l) (hd : l.current? (l.slotOf key) = some d) {place : Place}
    {v : α} {c' : Custody α} (hsize : c'.table.size = c.table.size) (htidy : c'.table.Tidy)
    (hascending : Assoc.Ascending c'.guards)
    (htable : ∀ slot, c'.table.occupied.lookup slot =
      if slot = l.slotOf key then place.occupant? v else c.table.occupied.lookup slot)
    (hguards : ∀ slot, (c'.guards.lookup slot).map (·.value) =
      if slot = l.slotOf key then if place = .guard then some v else none
      else (c.guards.lookup slot).map (·.value))
    (hkeys : ∀ slot g, c'.guards.lookup slot = some g → c'.table.slotOf g.key = slot) :
    c'.Records (l.amend (l.slotOf key) { d with place := place, value := v }) := by
  obtain ⟨-, hslot, hplace⟩ := Ledger.current?_eq_some hd
  have hcurrent : ∀ slot, (l.amend (l.slotOf key) { d with place := place, value := v }).current?
      slot = if slot = l.slotOf key then
        if place = .outside then none else some { d with place := place, value := v }
      else l.current? slot := h.sound.current?_amend hd hslot
  refine ⟨hsize.trans h.size, h.pos, (h.sound.posted_amend hd place v).sound h.sound, htidy,
    hascending, ?_, ?_, hkeys⟩
  · intro slot
    rw [htable, hcurrent]
    split
    · cases place <;> rfl
    · exact h.occupant slot
  · intro slot
    rw [hguards, hcurrent]
    split
    · cases place <;> rfl
    · exact h.guard slot

theorem Records.amend_table (h : c.Records l) (hd : l.current? (l.slotOf key) = some d)
    (hp : d.place = .slot) {place : Place} (hplace : place ≠ .guard) {v : α}
    {table : SlotTable α} (hsize : table.size = c.table.size) (htidy : table.Tidy)
    (htable : ∀ slot, table.occupied.lookup slot =
      if slot = l.slotOf key then place.occupant? v else c.table.occupied.lookup slot) :
    { c with table := table }.Records
      (l.amend (l.slotOf key) { d with place := place, value := v }) := by
  refine h.amend hd hsize htidy h.ascending htable ?_ ?_
  · intro slot
    by_cases heq : slot = l.slotOf key
    · have hnone : d.valueIn? .guard = none := if_neg (by simp [hp])
      rw [if_pos heq, if_neg hplace, heq, ← hnone]
      exact (h.guard _).trans (congrArg (Option.bind · _) hd)
    · rw [if_neg heq]
  · intro slot g hg
    exact (SlotTable.slotOf_of_size hsize _).trans (h.keys slot g hg)

/-! ## One call -/

theorem Records.serve (h : c.Records l) {place : Place} {missing elsewhere : TableAnswer α β}
    {act : α → TableAnswer α β × Place × α} {r : TableAnswer α β × Custody α}
    (hmissing : l.current? (l.slotOf key) = none → r = (missing, c))
    (helsewhere : ∀ d, l.current? (l.slotOf key) = some d → d.place ≠ place → r = (elsewhere, c))
    (hact : ∀ d, l.current? (l.slotOf key) = some d → d.place = place →
      r.1 = (act d.value).1 ∧ r.2.Records (l.amend (l.slotOf key)
        { d with place := (act d.value).2.1, value := (act d.value).2.2 })) :
    r.1 = (l.serve key place missing elsewhere act).1 ∧
      r.2.Records (l.serve key place missing elsewhere act).2 := by
  unfold Ledger.serve
  cases hd : l.current? (l.slotOf key) with
  | none =>
      rw [hmissing hd]
      exact ⟨rfl, h⟩
  | some d =>
      by_cases hp : d.place = place
      · simp only [if_pos hp]
        exact hact d hd hp
      · simp only [if_neg hp]
        rw [helsewhere d hd hp]
        exact ⟨rfl, h⟩

/-- A call that needs the entry in its slot: what it comes to if the slot is vacant, if the entry
is checked out and if it is there. -/
theorem Records.serve_entry (h : c.Records l) {missing : TableAnswer α β}
    {act : α → TableAnswer α β × Place × α} {r : TableAnswer α β × Custody α}
    (hmissing : c.table.occupant? key.toNat = none → r = (missing, c))
    (hwaits : c.table.occupant? key.toNat = some .checkedOut → r = (.waits, c))
    (hact : ∀ d, l.current? (l.slotOf key) = some d → d.place = .slot →
      c.table.occupant? key.toNat = some (.entry d.value) →
      r.1 = (act d.value).1 ∧ r.2.Records (l.amend (l.slotOf key)
        { d with place := (act d.value).2.1, value := (act d.value).2.2 })) :
    r.1 = (l.serve key .slot missing .waits act).1 ∧
      r.2.Records (l.serve key .slot missing .waits act).2 := by
  have hocc := h.occupant? key
  refine h.serve ?_ ?_ ?_
  · intro hd
    rw [hd] at hocc
    exact hmissing hocc
  · intro d hd hp
    rw [hd] at hocc
    have hguard := (Ledger.place_of_current? hd).resolve_left hp
    refine hwaits (hocc.trans ?_)
    simp [hguard, Place.occupant?]
  · intro d hd hp
    rw [hd] at hocc
    refine hact d hd hp (hocc.trans ?_)
    simp [hp, Place.occupant?]

/-- A call through a guard: what it comes to with no guard open on the slot, and with one. -/
theorem Records.serve_guard (h : c.Records l) {missing : TableAnswer α β}
    {act : α → TableAnswer α β × Place × α} {r : TableAnswer α β × Custody α}
    (hmissing : c.guard? key = none → r = (missing, c))
    (hact : ∀ d g, l.current? (l.slotOf key) = some d → d.place = .guard →
      c.guard? key = some g → g.value = d.value → c.table.slotOf g.key = l.slotOf key →
      r.1 = (act d.value).1 ∧ r.2.Records (l.amend (l.slotOf key)
        { d with place := (act d.value).2.1, value := (act d.value).2.2 })) :
    r.1 = (l.serve key .guard missing missing act).1 ∧
      r.2.Records (l.serve key .guard missing missing act).2 := by
  refine h.serve ?_ ?_ ?_
  · intro hd
    exact hmissing (h.guard?_of_none hd)
  · intro d hd hp
    exact hmissing (h.guard?_of_ne hd hp)
  · intro d hd hp
    obtain ⟨g, hg, hv, hs⟩ := h.guard?_of_guard hd hp
    exact hact d g hd hp hg hv hs

/-- Both give one answer to a call and go on in step. -/
def InStep (c : Custody α) (l : Ledger α) (first : TableCall α β) : Prop :=
  (c.call first).1 = (l.call first).1 ∧ (c.call first).2.Records (l.call first).2

theorem Records.tryInsert (h : c.Records l) (key : UInt32) (v : α) :
    c.InStep (β := β) l (.tryInsert key v) := by
  rw [InStep, Custody.call, SlotTable.tryInsert, h.isVacant, Ledger.call]
  cases hd : l.current? (l.slotOf key) with
  | some d => exact ⟨rfl, h⟩
  | none =>
      refine ⟨rfl, h.size, h.pos, (Ledger.Posted.enter hd v).sound h.sound,
        h.tidy_occupy key _, h.ascending, ?_, ?_, h.keys⟩
      · intro slot
        rw [Ledger.current?_enter hd]
        refine (SlotTable.lookup_occupy _ _ _ _).trans ?_
        rw [h.slotOf]
        split
        · rfl
        · exact h.occupant slot
      · intro slot
        rw [Ledger.current?_enter hd]
        refine (h.guard slot).trans ?_
        split
        · next heq => rw [heq, hd]; rfl
        · rfl

theorem Records.take (h : c.Records l) (key : UInt32) : c.InStep (β := β) l (.take key) := by
  refine h.serve_entry ?_ ?_ ?_
  · intro ho
    simp only [Custody.call, SlotTable.take, ho, settle]
  · intro ho
    simp only [Custody.call, SlotTable.take, ho, settle]
  · intro d hd hp ho
    have hcall : c.call (.take key) =
        (.handedOut (β := β) (some d.value), { c with table := c.table.vacate key.toNat }) := by
      simp only [Custody.call, SlotTable.take, ho, settle]
    rw [hcall]
    refine ⟨rfl, h.amend_table hd hp (by simp) rfl (h.tidy.vacate _) ?_⟩
    intro slot
    rw [SlotTable.lookup_vacate, h.slotOf]
    rfl

theorem Records.removeIf (h : c.Records l) (key : UInt32) (matching : α → Bool) :
    c.InStep (β := β) l (.removeIf key matching) := by
  have heq := SlotTable.removeIf_eq h.tidy.ascending key.toNat matching
  refine h.serve_entry ?_ ?_ ?_
  · intro ho
    simp only [Custody.call, heq, ho, settle]
  · intro ho
    simp only [Custody.call, heq, ho, settle]
  · intro d hd hp ho
    by_cases hm : matching d.value = true
    · have hcall : c.call (.removeIf key matching) =
          (.handedOut (β := β) (some d.value), { c with table := c.table.vacate key.toNat }) := by
        simp only [Custody.call, heq, ho, settle, if_pos hm]
      rw [hcall, if_pos hm]
      refine ⟨rfl, h.amend_table hd hp (by simp) rfl (h.tidy.vacate _) ?_⟩
      intro slot
      rw [SlotTable.lookup_vacate, h.slotOf]
      rfl
    · have hcall : c.call (.removeIf key matching) = (.handedOut (β := β) none, c) := by
        simp only [Custody.call, heq, ho, settle, if_neg hm]
      rw [hcall, if_neg hm]
      refine ⟨rfl, h.amend_table hd hp (by simp) rfl h.tidy ?_⟩
      intro slot
      split
      · next heq => rw [heq, h.lookup_of_current? hd, hp]
      · rfl

theorem Records.withEntry (h : c.Records l) (key : UInt32) (f : α → β × α) :
    c.InStep l (.withEntry key f) := by
  refine h.serve_entry ?_ ?_ ?_
  · intro ho
    simp only [Custody.call, SlotTable.withEntry_eq, ho, settle]
  · intro ho
    simp only [Custody.call, SlotTable.withEntry_eq, ho, settle]
  · intro d hd hp ho
    have hcall : c.call (.withEntry key f) = (.found (some (f d.value).1),
        { c with table := c.table.occupy key.toNat (.entry (f d.value).2) }) := by
      simp only [Custody.call, SlotTable.withEntry_eq, ho, settle]
    rw [hcall]
    refine ⟨rfl, h.amend_table hd hp (by simp) rfl (h.tidy_occupy key _) ?_⟩
    intro slot
    rw [SlotTable.lookup_occupy, h.slotOf]
    rfl

theorem Records.hold (h : c.Records l) (hd : l.current? (l.slotOf key) = some d) {g : Guard α}
    (hs : c.table.slotOf g.key = l.slotOf key) {table : SlotTable α}
    (hsize : table.size = c.table.size) (htidy : table.Tidy)
    (htable : ∀ slot, table.occupied.lookup slot =
      if slot = l.slotOf key then some .checkedOut else c.table.occupied.lookup slot) :
    (c.hold g table).Records
      (l.amend (l.slotOf key) { d with place := .guard, value := g.value }) := by
  refine h.amend hd hsize htidy (h.ascending.insert _ _) htable ?_ ?_
  · intro slot
    rw [Custody.hold, Assoc.lookup_insert, hs]
    split <;> rfl
  · intro slot g' hg'
    have hkey : c.table.slotOf g'.key = slot := by
      rw [Custody.hold, Assoc.lookup_insert] at hg'
      split at hg'
      · next heq =>
          obtain rfl := Option.some.inj hg'
          exact heq.symm
      · exact h.keys slot g' hg'
    exact (SlotTable.slotOf_of_size hsize _).trans hkey

theorem Records.checkOut (h : c.Records l) (key : UInt32) :
    c.InStep (β := β) l (.checkOut key) := by
  refine h.serve_entry ?_ ?_ ?_
  · intro ho
    simp only [Custody.call, SlotTable.checkOut, ho]
  · intro ho
    simp only [Custody.call, SlotTable.checkOut, ho]
  · intro d hd hp ho
    have hcall : c.call (.checkOut key) = (.opened (β := β) (some d.value),
        c.hold ⟨key.toNat, d.value⟩ (c.table.occupy key.toNat .checkedOut)) := by
      simp only [Custody.call, SlotTable.checkOut, ho]
    rw [hcall]
    refine ⟨rfl, h.hold hd (h.slotOf key) rfl (h.tidy_occupy key _) ?_⟩
    intro slot
    rw [SlotTable.lookup_occupy, h.slotOf]

theorem Records.use (h : c.Records l) (key : UInt32) (f : α → β × α) :
    c.InStep l (.use key f) := by
  refine h.serve_guard ?_ ?_
  · intro hg
    simp only [Custody.call, hg]
  · intro d g hd hp hg hv hs
    have hcall : c.call (.use key f) = (.found (some (f g.value).1),
        c.hold { g with value := (f g.value).2 } c.table) := by
      simp only [Custody.call, hg]
    rw [hcall, ← hv]
    refine ⟨rfl, h.hold (g := ⟨g.key, (f g.value).2⟩) hd hs rfl h.tidy ?_⟩
    intro slot
    split
    · next heq =>
        rw [heq, h.lookup_of_current? hd, hp]
        rfl
    · rfl

theorem Records.close (h : c.Records l) (hd : l.current? (l.slotOf key) = some d)
    {place : Place} (hplace : place ≠ .guard) {table : SlotTable α}
    (hsize : table.size = c.table.size) (htidy : table.Tidy)
    (htable : ∀ slot, table.occupied.lookup slot =
      if slot = l.slotOf key then place.occupant? d.value else c.table.occupied.lookup slot) :
    (c.close key table).Records (l.amend (l.slotOf key) { d with place := place }) := by
  refine h.amend hd hsize htidy (h.ascending.erase _) htable ?_ ?_
  · intro slot
    rw [if_neg hplace, Custody.close, Assoc.lookup_erase, h.slotOf]
    split <;> rfl
  · intro slot g hg
    rw [Custody.close, Assoc.lookup_erase] at hg
    split at hg
    · cases hg
    · exact (SlotTable.slotOf_of_size hsize _).trans (h.keys slot g hg)

theorem Records.drop (h : c.Records l) (key : UInt32) : c.InStep (β := β) l (.drop key) := by
  refine h.serve_guard ?_ ?_
  · intro hg
    simp only [Custody.call, hg]
  · intro d g hd _ hg hv hs
    have hcall : c.call (.drop key) =
        (.dropped (β := β) true, c.close key (c.table.checkIn g)) := by
      simp only [Custody.call, hg]
    have hslot : c.table.slotOf g.key < 0x100000000 := by
      rw [hs, ← h.slotOf]
      exact c.table.slotOf_toNat_lt key
    have htidy : (c.table.checkIn g).Tidy := h.tidy.occupy (h.size ▸ h.pos) hslot _
    rw [hcall]
    refine ⟨rfl, h.close hd (by simp) rfl htidy ?_⟩
    intro slot
    rw [SlotTable.checkIn, SlotTable.lookup_occupy, hs, hv]
    rfl

theorem Records.remove (h : c.Records l) (key : UInt32) : c.InStep (β := β) l (.remove key) := by
  refine h.serve_guard ?_ ?_
  · intro hg
    simp only [Custody.call, hg]
  · intro d g hd _ hg hv hs
    have hcall : c.call (.remove key) =
        (.handedOut (β := β) (some g.value), c.close key (c.table.vacate g.key)) := by
      simp only [Custody.call, hg, SlotTable.remove]
    rw [hcall, hv]
    refine ⟨rfl, h.close hd (by simp) rfl (h.tidy.vacate _) ?_⟩
    intro slot
    rw [SlotTable.lookup_vacate, hs]
    rfl

theorem Records.marked (h : c.Records l) (slot : Nat) :
    c.table.marked slot = (l.current? slot).any (·.place == .guard) := by
  rw [SlotTable.marked, h.occupant]
  cases hd : l.current? slot with
  | none => rfl
  | some d => cases hp : d.place <;> simp [hp, Place.occupant?, Occupant.isCheckedOut]

theorem Records.entryAt? (h : c.Records l) (slot : Nat) :
    c.table.entryAt? slot = (l.current? slot).bind (·.valueIn? .slot) := by
  rw [SlotTable.entryAt?, h.occupant]
  cases hd : l.current? slot with
  | none => rfl
  | some d =>
      cases hp : d.place <;> simp [hp, Place.occupant?, Occupant.value?, Deposit.valueIn?]

/-- A slot shows what the walk has made of the value in it, and a mark as it was. -/
theorem occupant?_afterWalk (g : Nat → α → α) (start stop : Nat) (d : Deposit α) :
    (d.afterWalk g start stop).place.occupant? (d.afterWalk g start stop).value =
      if start ≤ d.slot ∧ d.slot < stop then
        (d.place.occupant? d.value).map (·.map fun v => g d.slot v)
      else d.place.occupant? d.value := by
  unfold Deposit.afterWalk
  cases hp : d.place with
  | slot =>
      by_cases hslot : start ≤ d.slot ∧ d.slot < stop
      · simp [hslot, Place.occupant?, Occupant.map]
      · simp [hslot, hp]
  | guard => simp [hp, Place.occupant?, Occupant.map]
  | outside => simp [hp, Place.occupant?]

theorem Records.forEach (h : c.Records l) (start : Nat) (f : Nat → α → β × α) :
    c.InStep l (.forEach start f) := by
  have hw := h.tidy.walkFrom start f
  rw [InStep, Custody.call, Ledger.call]
  generalize c.table.walkFrom start f = w at hw
  have hsize := h.size
  have hwaits : w.waitsAt = l.waitsAt start := by
    rw [hw.waitsAt, Ledger.waitsAt, hsize,
      show max start l.size - start = l.size - start by omega]
    exact congrArg (List.find? · _) (funext h.marked)
  -- from a slot beyond the last one on, a walk gets nowhere on either side
  have hreach : w.reach (max start c.table.size) - start = l.reach start - start ∧
      ∀ slot, (start ≤ slot ∧ slot < w.reach (max start c.table.size)) ↔
        (start ≤ slot ∧ slot < l.reach start) := by
    rw [SlotTable.Walk.reach, Ledger.reach, hwaits, hsize]
    cases l.waitsAt start with
    | some slot => exact ⟨rfl, fun _ => .rfl⟩
    | none =>
        simp only [Option.getD_none]
        exact ⟨by omega, by omega⟩
  have hfound : w.found = l.findings start f := by
    rw [hw.found, Ledger.findings, hreach.1]
    simp only [h.entryAt?]
  refine ⟨congrArg₂ TableAnswer.visited hfound hwaits, ?_⟩
  refine ⟨hw.size.trans h.size, h.pos, (Ledger.Posted.walk _ _ _).sound h.sound, hw.tidy,
    h.ascending, ?_, ?_, ?_⟩
  · intro slot
    rw [Ledger.current?_afterWalk]
    refine (hw.lookup slot).trans ?_
    simp only [hreach.2]
    rw [h.occupant]
    cases hd : l.current? slot with
    | none => simp
    | some d =>
        obtain ⟨-, hslot, -⟩ := Ledger.current?_eq_some hd
        simp only [Option.bind_some, Option.map_some, occupant?_afterWalk, hslot]
  · intro slot
    rw [Ledger.current?_afterWalk]
    refine (h.guard slot).trans ?_
    cases l.current? slot with
    | none => rfl
    | some d => exact (d.valueIn?_afterWalk _ _ _ (by decide)).symm
  · intro slot g hg
    exact (SlotTable.slotOf_of_size hw.size _).trans (h.keys slot g hg)

theorem Records.call (h : c.Records l) (first : TableCall α β) : c.InStep l first := by
  cases first with
  | tryInsert key v => exact h.tryInsert key v
  | isVacant key => exact ⟨congrArg TableAnswer.vacant (h.isVacant key), h⟩
  | take key => exact h.take key
  | removeIf key matching => exact h.removeIf key matching
  | withEntry key f => exact h.withEntry key f
  | checkOut key => exact h.checkOut key
  | use key f => exact h.use key f
  | drop key => exact h.drop key
  | remove key => exact h.remove key
  | forEach start f => exact h.forEach start f

/-! ## Runs -/

theorem Records.run (h : c.Records l) (calls : List (TableCall α β)) :
    c.answers calls = l.answers calls ∧ (c.after calls).Records (l.after calls) := by
  induction calls generalizing c l with
  | nil => exact ⟨rfl, h⟩
  | cons first rest ih =>
      obtain ⟨hanswer, hnext⟩ := h.call first
      obtain ⟨hanswers, hlast⟩ := ih hnext
      exact ⟨congrArg₂ List.cons hanswer hanswers, hlast⟩

end Records

end Custody

end ReliableDatagram
