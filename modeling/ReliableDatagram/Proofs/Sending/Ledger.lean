/-
A record of all values that were ever put into a table.

The record is what a table of slots is to be judged by.  Each value put into
it makes one deposit, which stays in the record for good and says where its
value is: in its slot, in the guard that has checked it out, or outside, with
whoever it was handed out to.  What is at a slot is the deposit of that slot
that is not outside, and there is one at most: so the record is a map from
slots to values, and answers every call by that map.

A call either changes nothing, makes one deposit, moves one deposit or changes
values of deposits in their slots.  Conservation over all calls follows from
these four cases.

The record says nothing about lists in slot order, remainders or marks; a call is
served in one of three ways, by whether the value it needs is at its place,
elsewhere or nowhere, and `serve` is that rule once for all calls.  A walk is the
one call about several slots.  It goes as far as the first slot whose value is in
a guard, and the record after it is the record with the values of the slots before
that changed.

What is proved here is about the record alone: that calls keep one deposit at a
slot at most, that values go in and out as the answers say, and that a call which
does not look at a slot leaves what is there as it is.
-/
import Mathlib.Data.List.Basic

namespace ReliableDatagram

/-! ## Calls -/

/-- A call to a table, or to the guard that is open on the slot of a key. -/
inductive TableCall (α β : Type) where
  | tryInsert (key : UInt32) (value : α)
  | isVacant (key : UInt32)
  | take (key : UInt32)
  | removeIf (key : UInt32) (matching : α → Bool)
  | withEntry (key : UInt32) (f : α → β × α)
  | checkOut (key : UInt32)
  /-- Reads or changes the entry that a guard owns. -/
  | use (key : UInt32) (f : α → β × α)
  /-- The end of a guard, whose entry goes back into its slot. -/
  | drop (key : UInt32)
  /-- The end of a guard, whose entry does not go back. -/
  | remove (key : UInt32)
  /-- Visits the entries from a slot on: from the first one, or from the one that had to be waited
  for.  What is done at a visit may depend on the slot, as it does if `f` remembers its visits. -/
  | forEach (start : Nat) (f : Nat → α → β × α)

inductive TableAnswer (α β : Type) where
  /-- The entry is checked out, and the call is made again later. -/
  | waits
  | inserted (result : Except α Unit)
  | vacant (answer : Bool)
  | handedOut (value : Option α)
  | opened (value : Option α)
  | found (result : Option β)
  | dropped (wasOpen : Bool)
  | visited (found : List β) (waitsAt : Option Nat)
deriving DecidableEq

/-- A value that leaves the table with an answer. -/
def TableAnswer.handedOut? {α β : Type} : TableAnswer α β → Option α
  | handedOut value => value
  | _ => none

/-- A value that a call puts into the table. -/
def TableCall.accepted? {α β : Type} : TableCall α β → TableAnswer α β → Option α
  | tryInsert _ value, .inserted (.ok _) => some value
  | _, _ => none

/-- The key of a call that needs its entry to be in the slot. -/
def TableCall.entryKey? {α β : Type} : TableCall α β → Option UInt32
  | take key | removeIf key _ | withEntry key _ | checkOut key => some key
  | _ => none

/-- Whether a call looks at a slot of a table; a walk may look at all of them. -/
def TableCall.LooksAt {α β : Type} (size slot : Nat) : TableCall α β → Prop
  | tryInsert key _ | isVacant key | take key | removeIf key _ | withEntry key _ | checkOut key
  | use key _ | drop key | remove key => key.toNat % size = slot
  | forEach _ _ => True

/-! ## Deposits -/

/-- Where a value is. -/
inductive Place where
  | slot
  | guard
  /-- With whoever it was handed out to. -/
  | outside
deriving DecidableEq

/-- A value put into a table. -/
structure Deposit (α : Type) where
  slot : Nat
  /-- The value as it was put in. -/
  given : α
  /-- The value as it is now. -/
  value : α
  place : Place
deriving DecidableEq

/-- What a deposit can become: it belongs to its slot for good, and a value that was handed out
neither changes nor comes back. -/
structure Deposit.Becomes {α : Type} (d d' : Deposit α) : Prop where
  slot : d'.slot = d.slot
  given : d'.given = d.given
  outside : d.place = .outside → d' = d

/-- All values ever put into a table, oldest first. -/
structure Ledger (α : Type) where
  size : Nat
  deposits : List (Deposit α)

/-- The value of a deposit if it is in a place. -/
def Deposit.valueIn? {α : Type} (place : Place) (d : Deposit α) : Option α :=
  if d.place = place then some d.value else none

/-- Whether a deposit is what is at a slot. -/
def Deposit.isAt {α : Type} (d : Deposit α) (slot : Nat) : Bool :=
  d.slot == slot && d.place != .outside

/-- A deposit after a walk over the slots before `stop`, from `start` on, that makes `g slot v` of
the value `v` in a slot. -/
def Deposit.afterWalk {α : Type} (g : Nat → α → α) (start stop : Nat) (d : Deposit α) : Deposit α :=
  if d.place = .slot ∧ start ≤ d.slot ∧ d.slot < stop then { d with value := g d.slot d.value }
  else d

namespace Ledger

variable {α β : Type}

def slotOf (l : Ledger α) (key : UInt32) : Nat := key.toNat % l.size

/-- What is at a slot. -/
def current? (l : Ledger α) (slot : Nat) : Option (Deposit α) :=
  l.deposits.find? (·.isAt slot)

def enter (l : Ledger α) (slot : Nat) (v : α) : Ledger α :=
  { l with deposits := l.deposits ++ [⟨slot, v, v, .slot⟩] }

/-- The record after a walk. -/
def afterWalk (l : Ledger α) (g : Nat → α → α) (start stop : Nat) : Ledger α :=
  { l with deposits := l.deposits.map (·.afterWalk g start stop) }

/-- The record with what is at a slot replaced. -/
def amend (l : Ledger α) (slot : Nat) (d : Deposit α) : Ledger α :=
  { l with deposits := l.deposits.map fun e => if e.isAt slot then d else e }

/-- Serves a call whose value has to be in a place: `act` says what the caller gets, where the
value is afterwards and what has become of it. -/
def serve (l : Ledger α) (key : UInt32) (place : Place) (missing elsewhere : TableAnswer α β)
    (act : α → TableAnswer α β × Place × α) : TableAnswer α β × Ledger α :=
  match l.current? (l.slotOf key) with
  | none => (missing, l)
  | some d =>
    if d.place = place then
      ((act d.value).1, l.amend (l.slotOf key)
        { d with place := (act d.value).2.1, value := (act d.value).2.2 })
    else (elsewhere, l)

/-- The first slot from `start` on whose value is in a guard. -/
def waitsAt (l : Ledger α) (start : Nat) : Option Nat :=
  (List.range' start (l.size - start)).find? fun slot =>
    (l.current? slot).any (·.place == .guard)

/-- Where a walk from `start` on gets. -/
def reach (l : Ledger α) (start : Nat) : Nat := (l.waitsAt start).getD l.size

/-- What a walk from `start` on finds. -/
def findings (l : Ledger α) (start : Nat) (f : Nat → α → β × α) : List β :=
  (List.range' start (l.reach start - start)).filterMap fun slot =>
    ((l.current? slot).bind (·.valueIn? .slot)).map fun v => (f slot v).1

def call (l : Ledger α) : TableCall α β → TableAnswer α β × Ledger α
  | .tryInsert key v =>
    match l.current? (l.slotOf key) with
    | none => (.inserted (.ok ()), l.enter (l.slotOf key) v)
    | some _ => (.inserted (.error v), l)
  | .isVacant key => (.vacant (l.current? (l.slotOf key)).isNone, l)
  | .take key => l.serve key .slot (.handedOut none) .waits fun v => (.handedOut v, .outside, v)
  | .removeIf key matching =>
    l.serve key .slot (.handedOut none) .waits fun v =>
      if matching v then (.handedOut v, .outside, v) else (.handedOut none, .slot, v)
  | .withEntry key f =>
    l.serve key .slot (.found none) .waits fun v => (.found (f v).1, .slot, (f v).2)
  | .checkOut key => l.serve key .slot (.opened none) .waits fun v => (.opened v, .guard, v)
  | .use key f =>
    l.serve key .guard (.found none) (.found none) fun v => (.found (f v).1, .guard, (f v).2)
  | .drop key =>
    l.serve key .guard (.dropped false) (.dropped false) fun v => (.dropped true, .slot, v)
  | .remove key =>
    l.serve key .guard (.handedOut none) (.handedOut none) fun v => (.handedOut v, .outside, v)
  | .forEach start f =>
    (.visited (l.findings start f) (l.waitsAt start),
      l.afterWalk (fun slot v => (f slot v).2) start (l.reach start))

def answers (l : Ledger α) : List (TableCall α β) → List (TableAnswer α β)
  | [] => []
  | c :: rest => (l.call c).1 :: (l.call c).2.answers rest

def after (l : Ledger α) : List (TableCall α β) → Ledger α
  | [] => l
  | c :: rest => (l.call c).2.after rest

end Ledger

/-! ## What is at a slot -/

namespace Deposit

variable {α : Type}

theorem isAt_iff {d : Deposit α} {slot : Nat} :
    d.isAt slot = true ↔ d.slot = slot ∧ d.place ≠ .outside := by
  simp [isAt]

theorem valueIn?_eq_some_iff {d : Deposit α} {place : Place} {v : α} :
    d.valueIn? place = some v ↔ d.place = place ∧ d.value = v := by
  simp [valueIn?]

theorem slot_afterWalk (g : Nat → α → α) (start stop : Nat) (d : Deposit α) :
    (d.afterWalk g start stop).slot = d.slot := by
  unfold afterWalk
  split <;> rfl

theorem given_afterWalk (g : Nat → α → α) (start stop : Nat) (d : Deposit α) :
    (d.afterWalk g start stop).given = d.given := by
  unfold afterWalk
  split <;> rfl

theorem place_afterWalk (g : Nat → α → α) (start stop : Nat) (d : Deposit α) :
    (d.afterWalk g start stop).place = d.place := by
  unfold afterWalk
  split <;> rfl

theorem afterWalk_of_outside (g : Nat → α → α) (start stop : Nat) {d : Deposit α}
    (hd : d.place = .outside) : d.afterWalk g start stop = d := by
  rw [afterWalk, if_neg (by simp [hd])]

theorem valueIn?_afterWalk (g : Nat → α → α) (start stop : Nat) (d : Deposit α) {place : Place}
    (hplace : place ≠ .slot) : (d.afterWalk g start stop).valueIn? place = d.valueIn? place := by
  by_cases hd : d.place = .slot
  · rw [valueIn?, valueIn?, place_afterWalk, if_neg (hd ▸ hplace.symm), if_neg (hd ▸ hplace.symm)]
  · rw [afterWalk, if_neg fun h => hd h.1]

theorem becomes_afterWalk (g : Nat → α → α) (start stop : Nat) (d : Deposit α) :
    d.Becomes (d.afterWalk g start stop) :=
  ⟨d.slot_afterWalk g start stop, d.given_afterWalk g start stop,
    afterWalk_of_outside g start stop⟩

theorem Becomes.refl (d : Deposit α) : d.Becomes d := ⟨rfl, rfl, fun _ => rfl⟩

theorem Becomes.trans {d e e' : Deposit α} (h : d.Becomes e) (h' : e.Becomes e') :
    d.Becomes e' := by
  refine ⟨h'.slot.trans h.slot, h'.given.trans h.given, ?_⟩
  intro hd
  have heq := h.outside hd
  rw [h'.outside (heq ▸ hd), heq]

end Deposit

namespace Ledger

variable {α β : Type} {l : Ledger α} {slot : Nat} {d d' : Deposit α}

theorem current?_afterWalk (g : Nat → α → α) (start stop slot : Nat) :
    (l.afterWalk g start stop).current? slot =
      (l.current? slot).map (·.afterWalk g start stop) := by
  have hsame : (fun d : Deposit α => d.isAt slot) ∘ Deposit.afterWalk g start stop =
      fun d => d.isAt slot := by
    funext d
    simp only [Function.comp, Deposit.isAt, Deposit.slot_afterWalk, Deposit.place_afterWalk]
  rw [current?, afterWalk, List.find?_map, hsame]
  rfl

/-- A slot has one value at most that is not outside. -/
def Sound (l : Ledger α) : Prop :=
  l.deposits.Pairwise fun d e => d.place ≠ .outside → e.place ≠ .outside → d.slot ≠ e.slot

theorem current?_eq_some (hd : l.current? slot = some d) :
    d ∈ l.deposits ∧ d.slot = slot ∧ d.place ≠ .outside := by
  have hat : d.isAt slot = true := (List.find?_eq_some_iff_append.mp hd).1
  exact ⟨List.mem_of_find?_eq_some hd, Deposit.isAt_iff.mp hat⟩

theorem place_of_current? (hd : l.current? slot = some d) :
    d.place = .slot ∨ d.place = .guard := by
  have hplace := (current?_eq_some hd).2.2
  cases hp : d.place with
  | slot => exact .inl rfl
  | guard => exact .inr rfl
  | outside => exact absurd hp hplace

/-- What is at a slot is one deposit, and no other one there is. -/
theorem Sound.split (h : l.Sound) (hd : l.current? slot = some d) :
    ∃ front back, l.deposits = front ++ d :: back ∧ ∀ e ∈ front ++ back, e.isAt slot = false := by
  obtain ⟨hat, front, back, hdeposits, hfront⟩ := List.find?_eq_some_iff_append.mp hd
  obtain ⟨hslot, hplace⟩ := Deposit.isAt_iff.mp hat
  refine ⟨front, back, hdeposits, ?_⟩
  intro e he
  rcases List.mem_append.mp he with he | he
  · simpa using hfront e he
  · rw [Sound, hdeposits, List.pairwise_append, List.pairwise_cons] at h
    rw [Bool.eq_false_iff, ne_eq, Deposit.isAt_iff]
    rintro ⟨heslot, heplace⟩
    exact h.2.1.1 e he hplace heplace (hslot.trans heslot.symm)

theorem deposits_amend {front back : List (Deposit α)} (hdeposits : l.deposits = front ++ d :: back)
    (hd : d.isAt slot = true) (hothers : ∀ e ∈ front ++ back, e.isAt slot = false)
    (d' : Deposit α) : (l.amend slot d').deposits = front ++ d' :: back := by
  have hkeep : ∀ part : List (Deposit α), (∀ e ∈ part, e ∈ front ++ back) →
      part.map (fun e => if e.isAt slot then d' else e) = part := by
    intro part hpart
    refine (List.map_congr_left ?_).trans (List.map_id part)
    intro e he
    rw [hothers e (hpart e he)]
    rfl
  rw [amend, hdeposits, List.map_append, List.map_cons, if_pos hd,
    hkeep front fun e he => List.mem_append_left _ he,
    hkeep back fun e he => List.mem_append_right _ he]

theorem Sound.current?_eq_some_iff (h : l.Sound) :
    l.current? slot = some d ↔ d ∈ l.deposits ∧ d.slot = slot ∧ d.place ≠ .outside := by
  refine ⟨current?_eq_some, ?_⟩
  rintro ⟨hm, hat⟩
  have hat := Deposit.isAt_iff.mpr hat
  cases hc : l.current? slot with
  | none => exact absurd hat (List.find?_eq_none.mp hc d hm)
  | some e =>
      obtain ⟨front, back, hdeposits, hothers⟩ := h.split hc
      rw [hdeposits, List.mem_append, List.mem_cons, or_left_comm, ← List.mem_append] at hm
      rcases hm with rfl | hm
      · rfl
      · exact absurd hat (Bool.eq_false_iff.mp (hothers d hm))

theorem Sound.current?_amend (h : l.Sound) (hd : l.current? slot = some d) (hs : d'.slot = slot)
    (other : Nat) :
    (l.amend slot d').current? other =
      if other = slot then if d'.place = .outside then none else some d'
      else l.current? other := by
  obtain ⟨front, back, hdeposits, hothers⟩ := h.split hd
  obtain ⟨-, hslot, hplace⟩ := current?_eq_some hd
  rw [current?, deposits_amend hdeposits (Deposit.isAt_iff.mpr ⟨hslot, hplace⟩) hothers,
    List.find?_append, List.find?_cons]
  by_cases heq : other = slot
  · have hnone : ∀ part : List (Deposit α), (∀ e ∈ part, e ∈ front ++ back) →
        part.find? (·.isAt other) = none := by
      intro part hpart
      rw [List.find?_eq_none, heq]
      intro e he
      exact Bool.eq_false_iff.mp (hothers e (hpart e he))
    have hshown : d'.isAt other = (d'.place != .outside) := by simp [Deposit.isAt, hs, heq]
    rw [hnone front fun e he => List.mem_append_left _ he,
      hnone back fun e he => List.mem_append_right _ he, Option.none_or, hshown, if_pos heq]
    cases d'.place <;> rfl
  · have hnot : ∀ {e : Deposit α}, e.slot = slot → e.isAt other = false := by
      intro e he
      simp [Deposit.isAt, he, Ne.symm heq]
    rw [hnot hs, if_neg heq, current?, hdeposits, List.find?_append, List.find?_cons, hnot hslot]

theorem current?_enter (hv : l.current? slot = none) (v : α) (other : Nat) :
    (l.enter slot v).current? other =
      if other = slot then some ⟨slot, v, v, .slot⟩ else l.current? other := by
  rw [current?, enter, List.find?_append, List.find?_singleton]
  by_cases heq : other = slot
  · rw [if_pos heq, heq, ← current?, hv, Option.none_or]
    simp [Deposit.isAt]
  · rw [if_neg heq]
    simp [Deposit.isAt, Ne.symm heq, current?]

/-! ## What a call does -/

/-- A record after a call that put `entering` in and handed `leaving` out. -/
inductive Posted (l : Ledger α) : Option α → Option α → Ledger α → Prop
  | idle : Posted l none none l
  | enter {slot : Nat} (hv : l.current? slot = none) (v : α) :
      Posted l (some v) none (l.enter slot v)
  | move {front back : List (Deposit α)} {d : Deposit α}
      (hdeposits : l.deposits = front ++ d :: back) (hd : d.place ≠ .outside) (place : Place)
      (v : α) :
      Posted l none (if place = .outside then some v else none)
        { l with deposits := front ++ { d with place := place, value := v } :: back }
  | walk (g : Nat → α → α) (start stop : Nat) :
      Posted l none none (l.afterWalk g start stop)

theorem Sound.posted_amend (h : l.Sound) (hd : l.current? slot = some d) (place : Place) (v : α) :
    Posted l none (if place = .outside then some v else none)
      (l.amend slot { d with place := place, value := v }) := by
  obtain ⟨front, back, hdeposits, hothers⟩ := h.split hd
  have hat := (current?_eq_some hd).2
  have hmove := Posted.move hdeposits hat.2 place v
  rw [← deposits_amend hdeposits (Deposit.isAt_iff.mpr hat) hothers] at hmove
  exact hmove

/-- A call hands a value out exactly if it puts the value outside. -/
def Fair (act : α → TableAnswer α β × Place × α) : Prop :=
  ∀ v, (act v).1.handedOut? = if (act v).2.1 = .outside then some (act v).2.2 else none

theorem Sound.posted_serve (h : l.Sound) (key : UInt32) (place : Place)
    {missing elsewhere : TableAnswer α β} {act : α → TableAnswer α β × Place × α}
    (hmissing : missing.handedOut? = none) (helsewhere : elsewhere.handedOut? = none)
    (hact : Fair act) :
    Posted l none (l.serve key place missing elsewhere act).1.handedOut?
      (l.serve key place missing elsewhere act).2 := by
  unfold serve
  split
  · rw [hmissing]
    exact .idle
  · next d hd =>
      split
      · rw [hact d.value]
        exact h.posted_amend hd _ _
      · rw [helsewhere]
        exact .idle

theorem Sound.call (h : l.Sound) (c : TableCall α β) :
    Posted l (c.accepted? (l.call c).1) (l.call c).1.handedOut? (l.call c).2 := by
  cases c with
  | tryInsert key v =>
      simp only [Ledger.call]
      split
      · next hv => exact .enter hv v
      · exact .idle
  | isVacant key => exact .idle
  | take key => exact h.posted_serve key .slot rfl rfl fun _ => rfl
  | removeIf key matching =>
      refine h.posted_serve key .slot rfl rfl ?_
      intro v
      dsimp only
      split <;> rfl
  | withEntry key f => exact h.posted_serve key .slot rfl rfl fun _ => rfl
  | checkOut key => exact h.posted_serve key .slot rfl rfl fun _ => rfl
  | use key f => exact h.posted_serve key .guard rfl rfl fun _ => rfl
  | drop key => exact h.posted_serve key .guard rfl rfl fun _ => rfl
  | remove key => exact h.posted_serve key .guard rfl rfl fun _ => rfl
  | forEach start f => exact .walk _ start (l.reach start)

/-! ## What is conserved -/

def outside (l : Ledger α) : List α := l.deposits.filterMap (·.valueIn? .outside)

/-- Each deposit is still there, at its place in the order. -/
def Onward (l l' : Ledger α) : Prop :=
  ∀ (i : Nat) (d : Deposit α), l.deposits[i]? = some d →
    ∃ d', l'.deposits[i]? = some d' ∧ d.Becomes d'

theorem Onward.refl (l : Ledger α) : l.Onward l := by
  intro i d hd
  exact ⟨d, hd, .refl d⟩

theorem Onward.trans {m n : Ledger α} (h : l.Onward m) (h' : m.Onward n) : l.Onward n := by
  intro i d hd
  obtain ⟨e, he, hde⟩ := h i d hd
  obtain ⟨e', he', hee'⟩ := h' i e he
  exact ⟨e', he', hde.trans hee'⟩

section Posted

variable {l' : Ledger α} {entering leaving : Option α}

theorem Posted.sound (hp : l.Posted entering leaving l') (h : l.Sound) : l'.Sound := by
  cases hp with
  | idle => exact h
  | @enter slot hv v =>
      refine List.pairwise_append.mpr ⟨h, List.pairwise_singleton _ _, ?_⟩
      intro d hd e he hdplace _ hslot
      rw [List.mem_singleton.mp he] at hslot
      exact List.find?_eq_none.mp hv d hd (Deposit.isAt_iff.mpr ⟨hslot, hdplace⟩)
  | move hdeposits hd place v =>
      rw [Sound, hdeposits, List.pairwise_append, List.pairwise_cons] at h
      obtain ⟨hfront, ⟨hback, hrest⟩, hacross⟩ := h
      refine List.pairwise_append.mpr ⟨hfront, List.pairwise_cons.mpr ⟨?_, hrest⟩, ?_⟩
      · intro e he _ heplace
        exact hback e he hd heplace
      · intro e he d' hd' heplace hplace
        rcases List.mem_cons.mp hd' with rfl | hd'
        · have hne := hacross e he _ List.mem_cons_self heplace hd
          exact hne
        · exact hacross e he d' (List.mem_cons_of_mem _ hd') heplace hplace
  | walk g start stop =>
      refine List.pairwise_map.mpr (h.imp ?_)
      intro d e hne
      simpa only [Deposit.place_afterWalk, Deposit.slot_afterWalk] using hne

theorem Posted.size (hp : l.Posted entering leaving l') : l'.size = l.size := by
  cases hp <;> rfl

theorem Posted.given (hp : l.Posted entering leaving l') :
    l'.deposits.map (·.given) = l.deposits.map (·.given) ++ entering.toList := by
  cases hp with
  | idle => simp
  | enter => simp [Ledger.enter]
  | move hdeposits => simp [hdeposits]
  | walk => simp [Ledger.afterWalk, Deposit.given_afterWalk]

theorem Posted.outside (hp : l.Posted entering leaving l') :
    l'.outside.Perm (leaving.toList ++ l.outside) := by
  cases hp with
  | idle => exact .refl _
  | enter => simp [Ledger.outside, Ledger.enter, Deposit.valueIn?]
  | @move front back d hdeposits hd place v =>
      have hnone : d.valueIn? .outside = none := if_neg hd
      rw [Ledger.outside, Ledger.outside, hdeposits, List.filterMap_append, List.filterMap_append,
        List.filterMap_cons, List.filterMap_cons, hnone]
      cases place with
      | outside => exact List.perm_middle
      | slot => exact .refl _
      | guard => exact .refl _
  | walk g start stop =>
      refine .of_eq ?_
      rw [Ledger.outside, Ledger.afterWalk, List.filterMap_map]
      refine List.filterMap_congr ?_
      intro d _
      exact d.valueIn?_afterWalk g start stop (by decide)

theorem Posted.onward (hp : l.Posted entering leaving l') : l.Onward l' := by
  cases hp with
  | idle => exact .refl l
  | enter hv v =>
      intro i d hd
      have hi := (List.getElem?_eq_some_iff.mp hd).1
      exact ⟨d, (List.getElem?_append_left hi).trans hd, .refl d⟩
  | @move front back d hdeposits hd place v =>
      intro i e he
      rw [hdeposits] at he
      show ∃ e', (front ++ { d with place := place, value := v } :: back)[i]? = some e' ∧ _
      rw [List.getElem?_append] at he ⊢
      by_cases hi : i < front.length
      · rw [if_pos hi] at he ⊢
        exact ⟨e, he, .refl e⟩
      · rw [if_neg hi] at he ⊢
        rw [List.getElem?_cons] at he ⊢
        by_cases hzero : i - front.length = 0
        · rw [if_pos hzero] at he ⊢
          obtain rfl := Option.some.inj he
          exact ⟨_, rfl, rfl, rfl, fun hout => absurd hout hd⟩
        · rw [if_neg hzero] at he ⊢
          exact ⟨e, he, .refl e⟩
  | walk g start stop =>
      intro i d hd
      refine ⟨d.afterWalk g start stop, ?_, d.becomes_afterWalk g start stop⟩
      rw [Ledger.afterWalk, List.getElem?_map, hd, Option.map_some]

end Posted

/-- The values in a place, with their slots. -/
def valuesIn (l : Ledger α) (place : Place) : List (Nat × α) :=
  l.deposits.filterMap fun d => (d.valueIn? place).map (d.slot, ·)

theorem Sound.mem_valuesIn_iff (h : l.Sound) {place : Place} (hplace : place ≠ .outside) {v : α} :
    (slot, v) ∈ l.valuesIn place ↔ (l.current? slot).bind (·.valueIn? place) = some v := by
  simp only [valuesIn, List.mem_filterMap, Option.map_eq_some_iff, Option.bind_eq_some_iff,
    Prod.mk.injEq, h.current?_eq_some_iff, Deposit.valueIn?_eq_some_iff]
  constructor
  · rintro ⟨d, hd, v, ⟨hp, hv⟩, hslot, rfl⟩
    exact ⟨d, ⟨hd, hslot, hp ▸ hplace⟩, hp, hv⟩
  · rintro ⟨d, ⟨hd, hslot, -⟩, hv⟩
    exact ⟨d, hd, v, hv, hslot, rfl⟩

theorem Sound.nodup_valuesIn (h : l.Sound) {place : Place} (hplace : place ≠ .outside) :
    (l.valuesIn place).Nodup := by
  refine h.filterMap _ ?_
  intro d e hne entry hd last he
  simp only [Option.map_eq_some_iff, Deposit.valueIn?_eq_some_iff] at hd he
  obtain ⟨_, ⟨hdp, -⟩, rfl⟩ := hd
  obtain ⟨_, ⟨hep, -⟩, rfl⟩ := he
  intro heq
  exact hne (hdp ▸ hplace) (hep ▸ hplace) (congrArg Prod.fst heq)

/-! ## Runs -/

/-- The values that calls put in, by the answers to them. -/
def accepted (calls : List (TableCall α β)) (answers : List (TableAnswer α β)) : List α :=
  (calls.zip answers).filterMap fun ca => ca.1.accepted? ca.2

def handedOut (answers : List (TableAnswer α β)) : List α :=
  answers.filterMap (·.handedOut?)

theorem Sound.after (h : l.Sound) (calls : List (TableCall α β)) : (l.after calls).Sound := by
  induction calls generalizing l with
  | nil => exact h
  | cons c rest ih => exact ih ((h.call c).sound h)

theorem Sound.size_after (h : l.Sound) (calls : List (TableCall α β)) :
    (l.after calls).size = l.size := by
  induction calls generalizing l with
  | nil => rfl
  | cons c rest ih => exact (ih ((h.call c).sound h)).trans (h.call c).size

theorem Sound.onward_after (h : l.Sound) (calls : List (TableCall α β)) :
    l.Onward (l.after calls) := by
  induction calls generalizing l with
  | nil => exact .refl l
  | cons c rest ih => exact (h.call c).onward.trans (ih ((h.call c).sound h))

/-- Every value that was ever put in is recorded, in the order in which they came. -/
theorem Sound.given_after (h : l.Sound) (calls : List (TableCall α β)) :
    (l.after calls).deposits.map (·.given) =
      l.deposits.map (·.given) ++ accepted calls (l.answers calls) := by
  induction calls generalizing l with
  | nil => exact (List.append_nil _).symm
  | cons c rest ih =>
      have hp := h.call c
      rw [Ledger.after, ih (hp.sound h), hp.given, List.append_assoc, answers, accepted,
        accepted, List.zip_cons_cons, List.filterMap_cons]
      cases c.accepted? (l.call c).1 <;> rfl

/-- Every value outside was handed out once. -/
theorem Sound.outside_after (h : l.Sound) (calls : List (TableCall α β)) :
    (l.after calls).outside.Perm (handedOut (l.answers calls) ++ l.outside) := by
  induction calls generalizing l with
  | nil => exact .refl _
  | cons c rest ih =>
      have hp := h.call c
      have hsplit : handedOut (l.answers (c :: rest)) =
          (l.call c).1.handedOut?.toList ++ handedOut ((l.call c).2.answers rest) := by
        rw [answers, handedOut, List.filterMap_cons]
        cases (l.call c).1.handedOut? <;> rfl
      rw [hsplit, List.append_assoc]
      refine (ih (hp.sound h)).trans ((hp.outside.append_left _).trans ?_)
      exact List.perm_append_comm_assoc _ _ _

/-! ## Calls about a slot and about others -/

theorem Sound.current?_serve (h : l.Sound) {key : UInt32} {place : Place}
    {missing elsewhere : TableAnswer α β} {act : α → TableAnswer α β × Place × α}
    (hd : l.current? (l.slotOf key) = some d) (hp : d.place = place)
    (hstays : (act d.value).2.1 ≠ .outside) :
    (l.serve key place missing elsewhere act).2.current? (l.slotOf key) =
      some { d with place := (act d.value).2.1, value := (act d.value).2.2 } := by
  rw [serve, hd]
  simp only [if_pos hp]
  refine (h.current?_amend hd ?_ _).trans ((if_pos rfl).trans (if_neg hstays))
  exact (current?_eq_some hd).2.1

theorem Sound.current?_serve_of_ne (h : l.Sound) {key : UInt32} {place : Place}
    {missing elsewhere : TableAnswer α β} {act : α → TableAnswer α β × Place × α}
    (hne : slot ≠ l.slotOf key) :
    (l.serve key place missing elsewhere act).2.current? slot = l.current? slot := by
  unfold serve
  split
  · rfl
  · next d hd =>
      split
      · refine (h.current?_amend hd ?_ slot).trans (if_neg hne)
        exact (current?_eq_some hd).2.1
      · rfl

theorem Sound.current?_call (h : l.Sound) {c : TableCall α β} (hc : ¬ c.LooksAt l.size slot) :
    (l.call c).2.current? slot = l.current? slot := by
  have hne : ∀ {key : UInt32}, ¬ key.toNat % l.size = slot → slot ≠ l.slotOf key :=
    fun hkey heq => hkey heq.symm
  cases c with
  | tryInsert key v =>
      simp only [Ledger.call]
      split
      · next hv => exact (current?_enter hv v slot).trans (if_neg (hne hc))
      · rfl
  | isVacant key => rfl
  | forEach start f => exact absurd trivial hc
  | take key => exact h.current?_serve_of_ne (hne hc)
  | removeIf key matching => exact h.current?_serve_of_ne (hne hc)
  | withEntry key f => exact h.current?_serve_of_ne (hne hc)
  | checkOut key => exact h.current?_serve_of_ne (hne hc)
  | use key f => exact h.current?_serve_of_ne (hne hc)
  | drop key => exact h.current?_serve_of_ne (hne hc)
  | remove key => exact h.current?_serve_of_ne (hne hc)

theorem Sound.current?_after (h : l.Sound) {calls : List (TableCall α β)}
    (hcalls : ∀ c ∈ calls, ¬ c.LooksAt l.size slot) :
    (l.after calls).current? slot = l.current? slot := by
  induction calls generalizing l with
  | nil => rfl
  | cons c rest ih =>
      have hp := h.call c
      refine (ih (hp.sound h) ?_).trans (h.current?_call (hcalls c List.mem_cons_self))
      rw [hp.size]
      exact fun c' hc' => hcalls c' (List.mem_cons_of_mem _ hc')

/-- What is done to a value in a guard stays done while the guard is open and when it is gone. -/
theorem Sound.current?_after_drop (h : l.Sound) {key : UInt32}
    (hd : l.current? (l.slotOf key) = some d) (hp : d.place = .guard) (f : α → β × α)
    {others more : List (TableCall α β)}
    (hother : ∀ other ∈ others ++ more, ¬ other.LooksAt l.size (l.slotOf key)) :
    ((l.after (.use key f :: others)).after (.drop key :: more)).current? (l.slotOf key) =
      some { d with place := .slot, value := (f d.value).2 } := by
  have huse := h.call (.use key f)
  have hsound := huse.sound h
  have hopen : (l.after (.use key f :: others)).current? (l.slotOf key) =
      some { d with place := .guard, value := (f d.value).2 } := by
    refine (hsound.current?_after ?_).trans (h.current?_serve hd hp (by simp))
    rw [huse.size]
    exact fun other hm => hother other (List.mem_append_left _ hm)
  have hsound' := h.after (.use key f :: others)
  have hsize := h.size_after (.use key f :: others)
  have hslot : (l.after (.use key f :: others)).slotOf key = l.slotOf key := by
    rw [slotOf, slotOf, hsize]
  have hdrop := hsound'.call (β := β) (.drop key)
  refine ((hdrop.sound hsound').current?_after ?_).trans ?_
  · rw [hdrop.size, hsize]
    exact fun other hm => hother other (List.mem_append_right _ hm)
  · rw [← hslot] at hopen ⊢
    exact hsound'.current?_serve hopen rfl (by simp)

end Ledger

end ReliableDatagram
