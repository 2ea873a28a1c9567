/-
Walks over the slots of a table.

A walk looks at one slot after the other: it passes over a vacant one, checks
the entry of any other one out for as long as it is visited, and waits where
the entry is checked out already.  Whoever waits has visited the slots before
and goes on from there.  A closure that remembers what it has visited does
something else at each slot, so what is done at a visit may depend on the slot.

A walk that does not have to wait is a visit to all entries at once.

The table changes under the walk: after each visit it is another table, of the
same size and with its slots in order, in which only slots that the walk has left
behind are different.  So the description `Walked` of a walk from a slot on speaks
of those slots alone, and the induction is on the number of slots that are left,
for any table.  One step of it has three cases, by what is in the slot, and each
has a lemma that puts a slot in front of a walk.

Nobody else acts during a walk here, as an entry that is checked out stays so
until the walk gives up; calls of others come before or after it.
-/
import Mathlib.Data.List.Basic
import ReliableDatagram.Proofs.Sending.Slots

namespace ReliableDatagram.SlotTable

variable {α β : Type}

/-! ## The walk -/

/-- What a walk comes to. -/
structure Walk (α β : Type) where
  /-- What is found at the slots visited, in their order. -/
  found : List β
  /-- The slot whose guard the walk waits for, if it does not get to the end. -/
  waitsAt : Option Nat
  table : SlotTable α

/-- A walk over slots. -/
def walk (f : Nat → α → β × α) : List Nat → SlotTable α → Walk α β
  | [], t => ⟨[], none, t⟩
  | slot :: rest, t =>
    if t.isVacant slot then walk f rest t
    else
      match t.withEntry (UInt32.ofNat slot).toNat (f slot) with
      | .waits => ⟨[], some slot, t⟩
      | .done (found, t) => { walk f rest t with found := found.toList ++ (walk f rest t).found }

/-- A walk to the last slot of a table, from a slot on. -/
def walkFrom (t : SlotTable α) (start : Nat) (f : Nat → α → β × α) : Walk α β :=
  walk f (List.range' start (t.size - start)) t

/-- A table as calls make it: its slots are in order, and each is the slot of a key. -/
structure Tidy (t : SlotTable α) : Prop where
  ascending : Assoc.Ascending t.occupied
  slots : ∀ entry ∈ t.occupied, entry.1 < t.size ∧ entry.1 < 0x100000000

theorem tidy_vacant (size : Nat) : Tidy (⟨size, []⟩ : SlotTable α) :=
  ⟨List.Pairwise.nil, fun _ hm => absurd hm List.not_mem_nil⟩

theorem slotOf_toNat_lt (t : SlotTable α) (key : UInt32) : t.slotOf key.toNat < 0x100000000 :=
  Nat.lt_of_le_of_lt (Nat.mod_le _ _) key.toNat_lt

theorem Tidy.occupy {t : SlotTable α} (h : t.Tidy) {key : Nat} (hs : 0 < t.size)
    (hk : t.slotOf key < 0x100000000) (o : Occupant α) : (t.occupy key o).Tidy := by
  refine ⟨h.ascending.insert _ _, ?_⟩
  intro entry hm
  rcases Assoc.mem_insert hm with rfl | hm
  · exact ⟨Nat.mod_lt _ hs, hk⟩
  · exact h.slots entry hm

theorem Tidy.vacate {t : SlotTable α} (h : t.Tidy) (key : Nat) : (t.vacate key).Tidy :=
  ⟨h.ascending.erase _, fun entry hm => h.slots entry (List.mem_filter.mp hm).1⟩

theorem Tidy.slot_lt {t : SlotTable α} (h : t.Tidy) {slot : Nat} {o : Occupant α}
    (ho : t.occupied.lookup slot = some o) : slot < t.size ∧ slot < 0x100000000 :=
  h.slots _ ((Assoc.lookup_eq_some_iff h.ascending).mp ho)

/-- Slots with an entry checked out. -/
def marked (t : SlotTable α) (slot : Nat) : Bool :=
  (t.occupied.lookup slot).any (·.isCheckedOut)

/-- The entry in a slot. -/
def entryAt? (t : SlotTable α) (slot : Nat) : Option α :=
  (t.occupied.lookup slot).bind (·.value?)

/-- Where a walk that goes to a slot gets. -/
def Walk.reach (w : Walk α β) (stop : Nat) : Nat := w.waitsAt.getD stop

/-- The entries with their slots, in slot order. -/
def held (t : SlotTable α) : List (Nat × α) :=
  t.occupied.filterMap fun slot => slot.2.value?.map (slot.1, ·)

/-- What is true of a walk over the slots from `start` on that goes to `stop`: it gets to the first
slot with an entry checked out, or to the end, and visits each entry before once. -/
structure Walked (f : Nat → α → β × α) (start stop : Nat) (t : SlotTable α) (w : Walk α β) :
    Prop where
  waitsAt : w.waitsAt = (List.range' start (stop - start)).find? t.marked
  start_le : start ≤ w.reach stop
  found : w.found = (List.range' start (w.reach stop - start)).filterMap fun slot =>
    (t.entryAt? slot).map fun v => (f slot v).1
  size : w.table.size = t.size
  tidy : w.table.Tidy
  lookup : ∀ slot, w.table.occupied.lookup slot =
    if start ≤ slot ∧ slot < w.reach stop then
      (t.occupied.lookup slot).map (·.map fun v => (f slot v).2)
    else t.occupied.lookup slot

/-! ### One slot -/

section Walk

variable {t : SlotTable α}

theorem slotOf_of_lt {slot : Nat} (hs : slot < t.size) : t.slotOf slot = slot :=
  Nat.mod_eq_of_lt hs

theorem occupant?_of_lt {slot : Nat} (hs : slot < t.size) :
    t.occupant? slot = t.occupied.lookup slot := by
  rw [occupant?, slotOf_of_lt hs]

theorem walk_vacant (f : Nat → α → β × α) {slot : Nat} (rest : List Nat) (hs : slot < t.size)
    (ho : t.occupied.lookup slot = none) : walk f (slot :: rest) t = walk f rest t := by
  rw [walk, if_pos]
  rw [isVacant, occupant?_of_lt hs, ho]
  rfl

theorem walk_occupied (h : t.Tidy) (f : Nat → α → β × α) {slot : Nat} (rest : List Nat)
    {o : Occupant α} (ho : t.occupied.lookup slot = some o) :
    walk f (slot :: rest) t =
      match o with
      | .entry v =>
        let w := walk f rest (t.occupy slot (.entry (f slot v).2))
        { w with found := (f slot v).1 :: w.found }
      | .checkedOut => ⟨[], some slot, t⟩ := by
  obtain ⟨hs, hw⟩ := h.slot_lt ho
  have hkey : (UInt32.ofNat slot).toNat = slot := UInt32.toNat_ofNat_of_lt' hw
  have hocc : t.occupant? slot = some o := (occupant?_of_lt hs).trans ho
  rw [walk, if_neg (by simp [isVacant, hocc]), hkey, withEntry_eq, hocc]
  cases o <;> rfl

theorem range'_cons {start stop : Nat} (h : start < stop) :
    List.range' start (stop - start) = start :: List.range' (start + 1) (stop - (start + 1)) := by
  rw [show stop - start = (stop - (start + 1)) + 1 by omega, List.range'_succ]

/-! ### From one slot to all that follow -/

theorem walked_nil (h : t.Tidy) (f : Nat → α → β × α) (stop : Nat) :
    Walked f stop stop t (walk f [] t) where
  waitsAt := by simp [walk]
  start_le := Nat.le_refl _
  found := by simp [walk, Walk.reach]
  size := rfl
  tidy := h
  lookup slot := by
    rw [if_neg]
    · rfl
    · simp only [walk, Walk.reach, Option.getD_none]
      omega

variable {f : Nat → α → β × α} {start stop : Nat} {w : Walk α β}

theorem Walked.pass (hlt : start < stop) (h : Walked f (start + 1) stop t w)
    (ho : t.occupied.lookup start = none) : Walked f start stop t w where
  waitsAt := by
    rw [h.waitsAt, range'_cons hlt, List.find?_cons_of_neg]
    simp [marked, ho]
  start_le := Nat.le_of_succ_le h.start_le
  found := by
    rw [range'_cons h.start_le, List.filterMap_cons_none (by simp [entryAt?, ho])]
    exact h.found
  size := h.size
  tidy := h.tidy
  lookup slot := by
    rw [h.lookup]
    by_cases heq : slot = start
    · rw [heq, ho]
      simp
    · have hle : start + 1 ≤ slot ↔ start ≤ slot := by omega
      simp only [hle]

theorem Walked.visit (hlt : start < stop) (hs : start < t.size) {v : α}
    (ho : t.occupied.lookup start = some (.entry v))
    (h : Walked f (start + 1) stop (t.occupy start (.entry (f start v).2)) w) :
    Walked f start stop t { w with found := (f start v).1 :: w.found } := by
  -- the visit writes into its own slot only, and the walk goes on behind it
  have hlater : ∀ slot ≠ start,
      (t.occupy start (.entry (f start v).2)).occupied.lookup slot = t.occupied.lookup slot := by
    intro slot hne
    rw [lookup_occupy, slotOf_of_lt hs, if_neg hne]
  have hne : ∀ {slot count}, slot ∈ List.range' (start + 1) count → slot ≠ start := by
    intro slot count hm
    have := (List.mem_range'_1.mp hm).1
    omega
  refine ⟨?_, Nat.le_of_succ_le h.start_le, ?_, h.size, h.tidy, ?_⟩
  · show w.waitsAt = _
    rw [h.waitsAt, range'_cons hlt,
      List.find?_cons_of_neg (by simp [marked, ho, Occupant.isCheckedOut]),
      ← List.head?_filter, ← List.head?_filter]
    refine congrArg List.head? (List.filter_congr ?_)
    intro slot hm
    rw [marked, marked, hlater slot (hne hm)]
  · show (f start v).1 :: w.found = (List.range' start (w.reach stop - start)).filterMap _
    rw [range'_cons h.start_le,
      List.filterMap_cons_some (b := (f start v).1) (by simp [entryAt?, ho, Occupant.value?]),
      h.found]
    refine congrArg (List.cons _) (List.filterMap_congr ?_)
    intro slot hm
    rw [entryAt?, entryAt?, hlater slot (hne hm)]
  · intro slot
    rw [h.lookup]
    show _ = if start ≤ slot ∧ slot < w.reach stop then _ else _
    by_cases heq : slot = start
    · have hreach : start < w.reach stop := h.start_le
      rw [if_neg (by omega), if_pos (by omega), heq, ho, lookup_occupy, slotOf_of_lt hs,
        if_pos rfl]
      rfl
    · have hle : start + 1 ≤ slot ↔ start ≤ slot := by omega
      simp only [hle, hlater slot heq]

theorem walked_waits (h : t.Tidy) (f : Nat → α → β × α) (hlt : start < stop)
    (ho : t.occupied.lookup start = some .checkedOut) :
    Walked f start stop t ⟨[], some start, t⟩ where
  waitsAt := by
    rw [range'_cons hlt, List.find?_cons_of_pos (by simp [marked, ho, Occupant.isCheckedOut])]
  start_le := Nat.le_refl _
  found := by simp [Walk.reach]
  size := rfl
  tidy := h
  lookup slot := by
    rw [if_neg]
    simp only [Walk.reach, Option.getD_some]
    omega

/-- A walk to the last slot is as its description says, by induction on the slots that are left.
Of the table only its size and order are the same when a slot has been visited, so the table
changes on the way. -/
theorem walked_range' {t : SlotTable α} (h : t.Tidy) (f : Nat → α → β × α) (count start : Nat)
    (hcount : start + count = t.size) :
    Walked f start t.size t (walk f (List.range' start count) t) := by
  induction count generalizing start t with
  | zero =>
      rw [show t.size = start by omega]
      exact walked_nil h f start
  | succ count ih =>
      have hlt : start < t.size := by omega
      rw [List.range'_succ]
      cases ho : t.occupied.lookup start with
      | none =>
          rw [walk_vacant f _ hlt ho]
          exact (ih h (start + 1) (by omega)).pass hlt ho
      | some o =>
          rw [walk_occupied h f _ ho]
          cases o with
          | entry v =>
              have hslot : t.slotOf start < 0x100000000 := by
                rw [slotOf_of_lt hlt]
                exact (h.slot_lt ho).2
              have hocc := h.occupy (Nat.zero_lt_of_lt hlt) hslot (.entry (f start v).2)
              have hrest := ih hocc (start + 1) (by show start + 1 + count = t.size; omega)
              exact hrest.visit hlt hlt ho
          | checkedOut => exact walked_waits h f hlt ho

theorem Tidy.walkFrom {t : SlotTable α} (h : t.Tidy) (start : Nat) (f : Nat → α → β × α) :
    Walked f start (max start t.size) t (t.walkFrom start f) := by
  rw [SlotTable.walkFrom]
  by_cases hle : start ≤ t.size
  · rw [Nat.max_eq_right hle]
    exact walked_range' h f (t.size - start) start (by omega)
  · rw [Nat.max_eq_left (by omega), show t.size - start = 0 by omega]
    exact walked_nil h f start

/-! ## A visit to all entries -/

theorem Tidy.anyCheckedOut_iff {t : SlotTable α} (h : t.Tidy) :
    t.anyCheckedOut = true ↔ ∃ slot < t.size, t.marked slot = true := by
  rw [anyCheckedOut, List.any_eq_true]
  constructor
  · rintro ⟨⟨slot, o⟩, hm, ho⟩
    have hfound := (Assoc.lookup_eq_some_iff h.ascending).mpr hm
    refine ⟨slot, (h.slots _ hm).1, ?_⟩
    rw [marked, hfound]
    exact ho
  · rintro ⟨slot, -, hmarked⟩
    obtain ⟨o, hfound, ho⟩ := (Option.any_eq_true _ _).mp hmarked
    exact ⟨(slot, o), (Assoc.lookup_eq_some_iff h.ascending).mp hfound, ho⟩

theorem Tidy.ascending_held {t : SlotTable α} (h : t.Tidy) : Assoc.Ascending t.held := by
  refine h.ascending.filterMap _ ?_
  intro first second hlt entry hentry last hlast
  obtain ⟨_, -, rfl⟩ := Option.map_eq_some_iff.mp hentry
  obtain ⟨_, -, rfl⟩ := Option.map_eq_some_iff.mp hlast
  exact hlt

theorem Tidy.mem_held_iff {t : SlotTable α} (h : t.Tidy) {slot : Nat} {v : α} :
    (slot, v) ∈ t.held ↔ t.entryAt? slot = some v := by
  rw [entryAt?, Option.bind_eq_some_iff]
  simp only [held, List.mem_filterMap, Option.map_eq_some_iff, Prod.mk.injEq,
    Assoc.lookup_eq_some_iff h.ascending]
  constructor
  · rintro ⟨⟨_, o⟩, hm, _, hv, rfl, rfl⟩
    exact ⟨o, hm, hv⟩
  · rintro ⟨o, hm, hv⟩
    exact ⟨(slot, o), hm, v, hv, rfl, rfl⟩

theorem Tidy.filterMap_entryAt? {t : SlotTable α} (h : t.Tidy) :
    (List.range t.size).filterMap (fun slot => (t.entryAt? slot).map (slot, ·)) = t.held := by
  have hall := h.ascending.filterMap_range fun entry hm => (h.slots entry hm).1
  rw [held]
  conv_rhs => rw [← hall]
  rw [List.filterMap_filterMap]
  refine List.filterMap_congr ?_
  intro slot _
  rw [entryAt?]
  cases t.occupied.lookup slot <;> rfl

theorem map_snd_held (t : SlotTable α) : t.held.map Prod.snd = t.entries := by
  rw [held, entries, List.map_filterMap]
  refine List.filterMap_congr ?_
  intro slot _
  cases slot.2 <;> rfl

/-- A walk that gets to the end has visited every entry once and has changed nothing else. -/
theorem Tidy.walkFrom_zero {t : SlotTable α} (h : t.Tidy) (f : Nat → α → β × α)
    (hend : (t.walkFrom 0 f).waitsAt = none) :
    (t.walkFrom 0 f).found = t.held.map (fun e => (f e.1 e.2).1) ∧
      (t.walkFrom 0 f).table =
        ⟨t.size, t.occupied.map fun e => (e.1, e.2.map fun v => (f e.1 v).2)⟩ := by
  have hw := h.walkFrom 0 f
  rw [Nat.max_eq_right (Nat.zero_le _)] at hw
  generalize t.walkFrom 0 f = w at hw hend
  have hreach : w.reach t.size = t.size := by
    rw [Walk.reach, hend]
    rfl
  constructor
  · rw [hw.found, hreach, ← h.filterMap_entryAt?, List.map_filterMap, List.range_eq_range']
    refine List.filterMap_congr ?_
    intro slot _
    rw [Option.map_map]
    rfl
  · refine congrArg₂ SlotTable.mk hw.size (hw.tidy.ascending.eq_of_lookup ?_ ?_)
    · exact List.pairwise_map.mpr h.ascending
    · intro slot
      rw [hw.lookup, hreach,
        Assoc.lookup_map fun slot (o : Occupant α) => o.map fun v => (f slot v).2]
      split
      · rfl
      · next hbeyond =>
          cases ho : t.occupied.lookup slot with
          | none => rfl
          | some o => exact absurd ⟨Nat.zero_le _, (h.slot_lt ho).1⟩ hbeyond

theorem Tidy.waitsAt_walkFrom_zero {t : SlotTable α} (h : t.Tidy) (f : Nat → α → β × α) :
    (t.walkFrom 0 f).waitsAt.isSome = t.anyCheckedOut := by
  have hw := h.walkFrom 0 f
  rw [Nat.max_eq_right (Nat.zero_le _)] at hw
  rw [Bool.eq_iff_iff, h.anyCheckedOut_iff, hw.waitsAt, List.find?_isSome]
  simp [List.mem_range'_1]

/-- A walk from the first slot on that does the same everywhere is a visit to all entries. -/
theorem Tidy.visit_eq_walkFrom {t : SlotTable α} (h : t.Tidy) (f : α → β × α) :
    t.visit f =
      if (t.walkFrom 0 fun _ => f).waitsAt.isSome then .waits
      else .done ((t.walkFrom 0 fun _ => f).found, (t.walkFrom 0 fun _ => f).table) := by
  rw [visit, ← h.waitsAt_walkFrom_zero fun _ => f]
  split
  · rfl
  · next hend =>
      obtain ⟨hfound, htable⟩ := h.walkFrom_zero _ (Option.not_isSome_iff_eq_none.mp hend)
      rw [hfound, htable, ← map_snd_held, List.map_map]
      rfl

end Walk

end ReliableDatagram.SlotTable
