/-
A table of slots keeps every value that is put into it.

Table and guards answer what the record of all values answers, so what is
conserved by the record is conserved by them: the entries are the values that
the record has in slots, the guards own those that it has in guards, and all
others were handed out.

The comparison slot by slot becomes one of whole lists here.  Entries and guards
are listed in slot order and so are the values of the record in a place, up to
permutation; no slot occurs among the entries and among the guards.  What a call
does next, on any table that calls can lead to, is told from these lists: which
calls wait, which find a value, and that a call which waits has done nothing yet.

A caller that waits would wait for ever if the guard never came back.  Nothing is
claimed about that; it is claimed that nothing but an open guard makes a call
wait.

Main statement: after every sequence of calls, with any number of guards open
meanwhile, each value accepted is in one place.
-/
import ReliableDatagram.Proofs.Sending.Custody

namespace ReliableDatagram.Custody

variable {α β : Type}

/-- The entries that the guards own, with their slots. -/
def guarded (c : Custody α) : List (Nat × α) := c.guards.map fun g => (g.1, g.2.value)

section Records

variable {c : Custody α} {l : Ledger α}

/-! ## Where the values are -/

theorem Records.ascending_guarded (h : c.Records l) : Assoc.Ascending c.guarded :=
  List.pairwise_map.mpr h.ascending

theorem Records.mem_guarded_iff (h : c.Records l) {slot : Nat} {v : α} :
    (slot, v) ∈ c.guarded ↔ (l.current? slot).bind (·.valueIn? .guard) = some v := by
  rw [← h.guard, Option.map_eq_some_iff]
  simp only [guarded, List.mem_map, Prod.mk.injEq, Assoc.lookup_eq_some_iff h.ascending]
  constructor
  · rintro ⟨⟨_, g⟩, hm, rfl, hv⟩
    exact ⟨g, hm, hv⟩
  · rintro ⟨g, hm, hv⟩
    exact ⟨(slot, g), hm, rfl, hv⟩

theorem Records.perm_valuesIn (h : c.Records l) {place : Place} (hplace : place ≠ .outside)
    {values : List (Nat × α)} (hascending : Assoc.Ascending values)
    (hmem : ∀ slot v, (slot, v) ∈ values ↔
      (l.current? slot).bind (·.valueIn? place) = some v) :
    values.Perm (l.valuesIn place) := by
  refine (List.perm_ext_iff_of_nodup ?_ (h.sound.nodup_valuesIn hplace)).mpr ?_
  · exact hascending.nodup
  · rintro ⟨slot, v⟩
    rw [hmem, h.sound.mem_valuesIn_iff hplace]

theorem Records.held_perm (h : c.Records l) : c.table.held.Perm (l.valuesIn .slot) := by
  refine h.perm_valuesIn (by decide) h.tidy.ascending_held ?_
  intro slot v
  rw [h.tidy.mem_held_iff, h.entryAt?]

theorem Records.guarded_perm (h : c.Records l) : c.guarded.Perm (l.valuesIn .guard) :=
  h.perm_valuesIn (by decide) h.ascending_guarded fun _ _ => h.mem_guarded_iff

theorem Records.apart (h : c.Records l) : ((c.table.held ++ c.guarded).map Prod.fst).Nodup := by
  have hkeys : ∀ {values : List (Nat × α)}, Assoc.Ascending values →
      (values.map Prod.fst).Nodup := fun hv =>
    List.pairwise_map.mpr (hv.imp fun hlt => Nat.ne_of_lt hlt)
  rw [List.map_append, List.nodup_append]
  refine ⟨hkeys h.tidy.ascending_held, hkeys h.ascending_guarded, ?_⟩
  intro slot hslot other hother heq
  obtain ⟨⟨_, v⟩, hv, rfl⟩ := List.mem_map.mp hslot
  obtain ⟨⟨_, v'⟩, hv', rfl⟩ := List.mem_map.mp hother
  simp only at heq
  rw [h.tidy.mem_held_iff, h.entryAt?, heq] at hv
  rw [h.mem_guarded_iff] at hv'
  obtain ⟨d, hd, hdv⟩ := Option.bind_eq_some_iff.mp hv
  obtain ⟨e, he, hev⟩ := Option.bind_eq_some_iff.mp hv'
  obtain rfl := Option.some.inj (hd.symm.trans he)
  have hslot := (Deposit.valueIn?_eq_some_iff.mp hdv).1
  have hguard := (Deposit.valueIn?_eq_some_iff.mp hev).1
  rw [hslot] at hguard
  cases hguard

/-! ## One call after all others -/

theorem Records.anyCheckedOut (h : c.Records l) (hg : c.guards = []) :
    c.table.anyCheckedOut = false := by
  rw [Bool.eq_false_iff, ne_eq, h.tidy.anyCheckedOut_iff]
  rintro ⟨slot, -, hm⟩
  rw [h.marked] at hm
  obtain ⟨d, hd, hp⟩ := (Option.any_eq_true _ _).mp hm
  have hguard := h.guard slot
  rw [hg, hd, Option.bind_some, Deposit.valueIn?, if_pos (by simpa using hp)] at hguard
  cases hguard

theorem Records.isVacant_iff (h : c.Records l) (key : UInt32) :
    c.table.isVacant key.toNat = true ↔
      c.table.entryAt? (c.table.slotOf key.toNat) = none ∧ c.guard? key = none := by
  have hguard : c.guard? key = none ↔
      (l.current? (l.slotOf key)).bind (·.valueIn? .guard) = none := by
    rw [← h.guard, Option.map_eq_none_iff, guard?, h.slotOf]
  rw [h.isVacant, h.slotOf, h.entryAt?, hguard]
  cases hd : l.current? (l.slotOf key) with
  | none => simp
  | some d =>
      rcases Ledger.place_of_current? hd with hp | hp
      · simp [hp, Deposit.valueIn?]
      · simp [hp, Deposit.valueIn?]

theorem call_tryInsert (c : Custody α) (key : UInt32) (v : α) :
    c.call (β := β) (.tryInsert key v) =
      if c.table.isVacant key.toNat then
        (.inserted (.ok ()), { c with table := c.table.occupy key.toNat (.entry v) })
      else (.inserted (.error v), c) := by
  cases hv : c.table.isVacant key.toNat <;> simp [Custody.call, SlotTable.tryInsert, hv]

theorem Records.guard?_ne_none_iff (h : c.Records l) (key : UInt32) :
    c.guard? key ≠ none ↔ c.table.occupant? key.toNat = some .checkedOut := by
  rw [h.occupant?]
  cases hd : l.current? (l.slotOf key) with
  | none => simp [h.guard?_of_none hd]
  | some d =>
      rcases Ledger.place_of_current? hd with hp | hp
      · simp [h.guard?_of_ne hd (by simp [hp]), hp, Place.occupant?]
      · obtain ⟨g, hg, -⟩ := h.guard?_of_guard hd hp
        simp [hg, hp, Place.occupant?]

/-- A call that needs an entry waits for its guard, and has done nothing yet. -/
theorem Records.call_of_guard (h : c.Records l) {first : TableCall α β} {key : UInt32}
    (hkey : first.entryKey? = some key) (hg : c.guard? key ≠ none) :
    c.call first = (.waits, c) := by
  have ho := (h.guard?_ne_none_iff key).mp hg
  cases first with
  | take | removeIf | withEntry | checkOut =>
      obtain rfl := Option.some.inj hkey
      simp only [Custody.call, SlotTable.take, SlotTable.removeIf, SlotTable.withEntry,
        SlotTable.checkOut, ho, Attempt.map, settle]
  | _ => cases hkey

/-- Nothing else waits. -/
theorem Records.guard_of_waits (h : c.Records l) {first : TableCall α β}
    (hw : (c.call first).1 = .waits) :
    ∃ key, first.entryKey? = some key ∧ c.guard? key ≠ none := by
  cases first with
  | take key | removeIf key _ | withEntry key _ | checkOut key =>
      refine ⟨key, rfl, (h.guard?_ne_none_iff key).mpr ?_⟩
      cases ho : c.table.occupant? key.toNat with
      | none =>
          simp [Custody.call, SlotTable.take, SlotTable.removeIf, SlotTable.withEntry,
            SlotTable.checkOut, ho, Attempt.map, settle] at hw
      | some o =>
          cases o with
          | checkedOut => rfl
          | entry v =>
              simp [Custody.call, SlotTable.take, SlotTable.removeIf, SlotTable.withEntry,
                SlotTable.checkOut, ho, Attempt.map, settle] at hw
  | tryInsert key v =>
      rw [call_tryInsert] at hw
      split at hw <;> cases hw
  | use key f | drop key | remove key =>
      rw [Custody.call] at hw
      split at hw <;> cases hw
  | isVacant | forEach => cases hw

theorem Records.seen (h : c.Records l) {key : UInt32} {g : Guard α} (hg : c.guard? key = some g)
    (f : α → β × α) {others more : List (TableCall α β)}
    (hother : ∀ other ∈ others ++ more,
      ¬ other.LooksAt c.table.size (c.table.slotOf key.toNat)) :
    ((c.after (.use key f :: others)).after (.drop key :: more)).table.entryAt?
      (c.table.slotOf key.toNat) = some (f g.value).2 := by
  have hguard := h.guard (l.slotOf key)
  rw [Custody.guard?, h.slotOf] at hg
  rw [hg, Option.map_some] at hguard
  obtain ⟨d, hd, hdv⟩ := Option.bind_eq_some_iff.mp hguard.symm
  obtain ⟨hp, hv⟩ := Deposit.valueIn?_eq_some_iff.mp hdv
  rw [h.size, h.slotOf] at hother
  obtain ⟨-, hlast⟩ := (h.run (.use key f :: others)).2.run (.drop key :: more)
  rw [h.slotOf, hlast.entryAt?, h.sound.current?_after_drop hd hp f hother, ← hv]
  rfl

end Records

/-! ## Main result -/

/-- Every value accepted is in one place: `l` lists the values in the order in which they came and
says of each where it is. -/
structure Accounts (c : Custody α) (l : Ledger α) (accepted handedOut : List α) : Prop where
  given : l.deposits.map (·.given) = accepted
  held : c.table.held.Perm (l.valuesIn .slot)
  guarded : c.guarded.Perm (l.valuesIn .guard)
  handedOut : handedOut.Perm l.outside
  /-- No slot has two values. -/
  apart : ((c.table.held ++ c.guarded).map Prod.fst).Nodup

/-- What a table does next, whatever was done before. -/
structure Behaves (β : Type) (c : Custody α) (l : Ledger α) : Prop where
  /-- A value goes in exactly if the slot has no entry and no guard is open on it. -/
  tryInsert : ∀ key v, (c.call (β := β) (.tryInsert key v)).1 = .inserted (.ok ()) ↔
    c.table.entryAt? (c.table.slotOf key.toNat) = none ∧ c.guard? key = none
  /-- Otherwise it comes back, and nothing changes. -/
  refused : ∀ key v, (c.call (β := β) (.tryInsert key v)).1 ≠ .inserted (.ok ()) →
    c.call (β := β) (.tryInsert key v) = (.inserted (.error v), c)
  checkedOut : ∀ key, c.guard? key ≠ none → c.table.isVacant key.toNat = false
  /-- What waits are the calls that need an entry that a guard owns, and they change nothing. -/
  waits : ∀ first : TableCall α β, (c.call first).1 = .waits ↔
    ∃ key, first.entryKey? = some key ∧ c.guard? key ≠ none
  unchanged : ∀ first : TableCall α β, (c.call first).1 = .waits → (c.call first).2 = c
  /-- What is done to an entry through its guard is there when the guard is gone, whatever happens
  to other slots. -/
  seen : ∀ key g (f : α → β × α) (others more : List (TableCall α β)), c.guard? key = some g →
    (∀ other ∈ others ++ more, ¬ other.LooksAt c.table.size (c.table.slotOf key.toNat)) →
    ((c.after (.use key f :: others)).after (.drop key :: more)).table.entryAt?
      (c.table.slotOf key.toNat) = some (f g.value).2
  /-- With no guard open a walk visits every entry once, in slot order, and changes nothing else. -/
  forEach : ∀ f : Nat → α → β × α, c.guards = [] →
    c.call (.forEach 0 f) = (.visited (c.table.held.map fun e => (f e.1 e.2).1) none,
      { c with table.occupied :=
        c.table.occupied.map fun (slot, o) => (slot, o.map fun v => (f slot v).2) })
  /-- A walk that does the same everywhere is the table's visit to all entries. -/
  visit : ∀ f : α → β × α, c.table.visit f =
    if (c.table.walkFrom 0 fun _ => f).waitsAt.isSome then .waits
    else .done ((c.table.walkFrom 0 fun _ => f).found, (c.table.walkFrom 0 fun _ => f).table)
  onward : ∀ later : List (TableCall α β), l.Onward (l.after later)

variable {c : Custody α} {l : Ledger α}

theorem Records.behaves (h : c.Records l) : c.Behaves β l where
  tryInsert key v := by
    rw [call_tryInsert, ← h.isVacant_iff]
    split <;> simp [*]
  refused key v hne := by
    rw [call_tryInsert] at hne ⊢
    split
    · next hv => exact absurd (by rw [if_pos hv]) hne
    · rfl
  checkedOut key hg := by
    rw [Bool.eq_false_iff]
    intro hv
    exact hg ((h.isVacant_iff key).mp hv).2
  waits first := by
    refine ⟨h.guard_of_waits, ?_⟩
    rintro ⟨key, hkey, hg⟩
    rw [h.call_of_guard hkey hg]
  unchanged first hw := by
    obtain ⟨key, hkey, hg⟩ := h.guard_of_waits hw
    rw [h.call_of_guard hkey hg]
  seen key g f others more hg hother := h.seen hg f hother
  forEach f hg := by
    have hend : (c.table.walkFrom 0 f).waitsAt = none := by
      rw [← Option.not_isSome_iff_eq_none, h.tidy.waitsAt_walkFrom_zero, h.anyCheckedOut hg]
      decide
    obtain ⟨hfound, htable⟩ := h.tidy.walkFrom_zero f hend
    rw [Custody.call, hfound, hend, htable]
  visit := h.tidy.visit_eq_walkFrom
  onward := h.sound.onward_after

/-- A table of any power of two of slots answers every sequence of calls like the map from slots to
values that the record is, and every value accepted is in one place all the time. -/
theorem answers_eq_ledger {α β : Type} {size : Nat} (hp : isPowerOfTwo size = true) :
    ∃ table : SlotTable α, SlotTable.new size = .ok table ∧ ∀ calls : List (TableCall α β),
      answers ⟨table, []⟩ calls = Ledger.answers ⟨size, []⟩ calls ∧
        (after ⟨table, []⟩ calls).Accounts (Ledger.after ⟨size, []⟩ calls)
          (Ledger.accepted calls (answers ⟨table, []⟩ calls))
          (Ledger.handedOut (answers ⟨table, []⟩ calls)) ∧
        (after ⟨table, []⟩ calls).Behaves β (Ledger.after ⟨size, []⟩ calls) := by
  refine ⟨⟨size, []⟩, if_pos hp, ?_⟩
  intro calls
  have hsound : Ledger.Sound (⟨size, []⟩ : Ledger α) := List.Pairwise.nil
  have hstart : Records (⟨⟨size, []⟩, []⟩ : Custody α) ⟨size, []⟩ :=
    ⟨rfl, pos_of_isPowerOfTwo hp, hsound, SlotTable.tidy_vacant size, List.Pairwise.nil,
      fun _ => rfl, fun _ => rfl, fun _ _ hg => nomatch hg⟩
  obtain ⟨hanswers, hlast⟩ := hstart.run calls
  refine ⟨hanswers, ⟨?_, hlast.held_perm, hlast.guarded_perm, ?_, hlast.apart⟩, hlast.behaves⟩
  · rw [hanswers]
    exact hsound.given_after calls
  · rw [hanswers]
    refine ((hsound.outside_after calls).trans ?_).symm
    rw [show Ledger.outside (⟨size, []⟩ : Ledger α) = [] from rfl, List.append_nil]

/-- Four slots, and keys that meet in them; two guards are open while others come and wait, and a
walk goes on in between. -/
def contendedCalls : List (TableCall Nat Nat) :=
  [.tryInsert 2 20, .tryInsert 6 60, .tryInsert 1 10, .checkOut 6, .checkOut 1,
    .use 2 fun v => (v, v + 1), .tryInsert 2 22, .isVacant 6, .take 2,
    .forEach 0 fun _ v => (v, v + 100), .drop 5, .forEach 1 fun _ v => (v, v + 100), .remove 2,
    .removeIf 1 (· == 0), .tryInsert 6 60, .take 9, .withEntry 2 fun v => (v, v)]

theorem answers_of_contendedCalls :
    isPowerOfTwo 4 = true ∧ ∃ table : SlotTable Nat, SlotTable.new 4 = .ok table ∧
      answers ⟨table, []⟩ contendedCalls = [.inserted (.ok ()), .inserted (.error 60),
        .inserted (.ok ()), .opened (some 20), .opened (some 10), .found (some 20),
        .inserted (.error 22), .vacant false, .waits, .visited [] (some 1), .dropped true,
        .visited [10] (some 2), .handedOut (some 21), .handedOut none, .inserted (.ok ()),
        .handedOut (some 110), .found (some 60)] ∧
      (after ⟨table, []⟩ contendedCalls).table.held.Perm [(2, 60)] := by
  obtain ⟨table, hnew, hcalls⟩ := @answers_eq_ledger Nat Nat 4 (by decide)
  obtain ⟨hanswers, haccounts, -⟩ := hcalls contendedCalls
  exact ⟨by decide, table, hnew, hanswers.trans (by decide), haccounts.held⟩

end ReliableDatagram.Custody
