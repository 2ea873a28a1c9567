/-
The ring of stamped cells is a bounded first-in first-out queue.

The positions from the head on, as many as the ring has cells, have one cell
each, however often the positions wrap around.  The cells of the values held
carry the stamps of values to be taken, all others those of free cells, and
so the cell at the tail tells whether there is room and the cell at the head
whether there is a value.  No other stamp is ever met: a caller who is alone
finds out in one look.

`Holds` is this description, with the values listed from the head on.  It speaks of
positions by their distance from the head, and never of a position itself, so that
nothing has to be said about wrapping: distances below the capacity have different
cells because the capacity divides the number of words, and a stamp is compared
over at most one round, which is at most half of the words.  Storing appends to the
list and taking drops its first value; in both proofs the cell that changes is told
from the others by its distance.

A capacity is any power of two from two on that is a word.  At half of the words, the
greatest of them, the oldest value's stamp is exactly as far behind as the comparison
still calls early.

Main statement: a queue answers every sequence of calls like a list of at most
as many values as it has cells.
-/
import Mathlib.Data.List.Basic
import Mathlib.Data.Nat.ModEq
import ReliableDatagram.Receiving.BoundedQueue

namespace ReliableDatagram

/-! ## Calls -/

/-- A call to a queue. -/
inductive QueueCall (α : Type) where
  | push (value : α)
  | pop
  | size
  | isEmpty

inductive QueueAnswer (α : Type) where
  | pushed (result : Except α Unit)
  | popped (value : Option α)
  | size (count : Nat)
  | isEmpty (answer : Bool)
deriving DecidableEq

/-- What one look at a cell comes to. -/
inductive Look (β : Type) where
  /-- The position was served by someone else meanwhile, so the caller looks again. -/
  | again
  /-- The caller would read a cell without a value. -/
  | unwritten
  | settled (result : β)

namespace BoundedQueue

variable {α : Type}

/-- One look at the tail by a caller who has a value. -/
def lookToPush (q : BoundedQueue α) (value : α) : Look (Except α Unit × BoundedQueue α) :=
  match q.tailTurn with
  | .ready => .settled (.ok (), q.store value)
  | .early => .settled (.error value, q)
  | .late => .again

/-- One look at the head by a caller who wants a value. -/
def lookToPop (q : BoundedQueue α) : Look (Option α × BoundedQueue α) :=
  match q.headTurn with
  | .ready =>
    match q.headValue with
    | some value => .settled (some value, q.discard)
    | none => .unwritten
  | .early => .settled (none, q)
  | .late => .again

def call (q : BoundedQueue α) : QueueCall α → QueueAnswer α × BoundedQueue α
  | .push value => (q.push value).map .pushed id
  | .pop => q.pop.map .popped id
  | .size => (.size q.size, q)
  | .isEmpty => (.isEmpty q.isEmpty, q)

def answers (q : BoundedQueue α) : List (QueueCall α) → List (QueueAnswer α)
  | [] => []
  | c :: rest => (q.call c).1 :: (q.call c).2.answers rest

def after (q : BoundedQueue α) : List (QueueCall α) → BoundedQueue α
  | [] => q
  | c :: rest => (q.call c).2.after rest

end BoundedQueue

/-! ## Bounded lists -/

/-- A first-in first-out list of at most `capacity` values, the oldest in front. -/
structure BoundedList (α : Type) where
  capacity : Nat
  values : List α

namespace BoundedList

variable {α : Type}

def call (l : BoundedList α) : QueueCall α → QueueAnswer α × BoundedList α
  | .push value =>
    if l.values.length < l.capacity then
      (.pushed (.ok ()), { l with values := l.values ++ [value] })
    else (.pushed (.error value), l)
  | .pop => (.popped l.values.head?, { l with values := l.values.tail })
  | .size => (.size l.values.length, l)
  | .isEmpty => (.isEmpty l.values.isEmpty, l)

def answers (l : BoundedList α) : List (QueueCall α) → List (QueueAnswer α)
  | [] => []
  | c :: rest => (l.call c).1 :: (l.call c).2.answers rest

def after (l : BoundedList α) : List (QueueCall α) → BoundedList α
  | [] => l
  | c :: rest => (l.call c).2.after rest

end BoundedList

/-! ## Positions and their cells -/

namespace BoundedQueue

/-- The capacities that a ring can have. -/
structure RingSize (capacity : Nat) : Prop where
  isPowerOfTwo : isPowerOfTwo capacity = true
  two_le : 2 ≤ capacity
  /-- A size is a 64-bit word. -/
  isWord : capacity < 0x10000000000000000

section RingSize

variable {capacity : Nat}

theorem RingSize.dvd (h : RingSize capacity) : capacity ∣ 0x10000000000000000 :=
  dvd_of_isPowerOfTwo h.isPowerOfTwo (by decide) (Nat.le_of_lt h.isWord)

theorem RingSize.le (h : RingSize capacity) : capacity ≤ 0x8000000000000000 := by
  obtain ⟨k, hk⟩ := h.dvd
  have hlt := h.isWord
  have h2 : 2 ≤ k := by
    match k with
    | 0 => omega
    | 1 => omega
    | k + 2 => omega
  have hmul : capacity * 2 ≤ capacity * k := Nat.mul_le_mul_left capacity h2
  omega

end RingSize

/-- The position so many steps on from the head. -/
def ahead {α : Type} (q : BoundedQueue α) (k : Nat) : UInt64 := q.head + UInt64.ofNat k

section Positions

variable {α : Type} {q : BoundedQueue α} {value : α} {p : UInt64}

theorem toNat_ahead (q : BoundedQueue α) (k : Nat) :
    (q.ahead k).toNat = (q.head.toNat + k) % 0x10000000000000000 := by
  rw [ahead, UInt64.toNat_add, UInt64.toNat_ofNat']
  omega

@[simp] theorem ahead_zero (q : BoundedQueue α) : q.ahead 0 = q.head := by
  simp [ahead]

theorem ahead_add_one (q : BoundedQueue α) (k : Nat) : q.ahead k + 1 = q.ahead (k + 1) := by
  rw [ahead, ahead, UInt64.ofNat_add, ← UInt64.add_assoc]
  rfl

theorem ahead_discard (q : BoundedQueue α) (k : Nat) : q.discard.ahead k = q.ahead (k + 1) := by
  rw [ahead, ahead, UInt64.ofNat_add, UInt64.add_comm (UInt64.ofNat k), ← UInt64.add_assoc]
  rfl

theorem ahead_sub_head (q : BoundedQueue α) (k : Nat) : q.ahead k - q.head = UInt64.ofNat k := by
  rw [ahead, UInt64.add_comm, UInt64.add_sub_cancel]

theorem indexOf_ahead (h : RingSize q.capacity) (k : Nat) :
    q.indexOf (q.ahead k) = (q.head.toNat + k) % q.capacity := by
  rw [indexOf, toNat_ahead, Nat.mod_mod_of_dvd _ h.dvd]

/-- The positions of one round have different cells. -/
theorem indexOf_ahead_inj (h : RingSize q.capacity) {j k : Nat} (hj : j < q.capacity)
    (hk : k < q.capacity) : q.indexOf (q.ahead j) = q.indexOf (q.ahead k) ↔ j = k := by
  rw [indexOf_ahead h, indexOf_ahead h]
  refine ⟨fun heq => ?_, fun heq => by rw [heq]⟩
  have hmod : j % q.capacity = k % q.capacity := Nat.ModEq.add_left_cancel' q.head.toNat heq
  rwa [Nat.mod_eq_of_lt hj, Nat.mod_eq_of_lt hk] at hmod

theorem indexOf_ahead_capacity (h : RingSize q.capacity) :
    q.indexOf (q.ahead q.capacity) = q.indexOf q.head := by
  rw [indexOf_ahead h, Nat.add_mod_right, indexOf]

theorem indexOf_lt (h : RingSize q.capacity) (p : UInt64) : q.indexOf p < q.cells.size :=
  Nat.mod_lt _ (Nat.lt_of_lt_of_le Nat.two_pos h.two_le)

theorem cell_store_of_eq (h : RingSize q.capacity) (hp : q.indexOf p = q.indexOf q.tail)
    (value : α) : (q.store value).cell p = ⟨q.tail + 1, some value⟩ := by
  have hlt := indexOf_lt h q.tail
  rw [cell, indexOf, capacity_store, ← indexOf, hp]
  simp [store, hlt]

theorem cell_store_of_ne (hp : q.indexOf p ≠ q.indexOf q.tail) (value : α) :
    (q.store value).cell p = q.cell p := by
  rw [cell, indexOf, capacity_store, ← indexOf, cell]
  simp [store, Ne.symm hp]

theorem cell_discard_of_eq (h : RingSize q.capacity) (hp : q.indexOf p = q.indexOf q.head) :
    q.discard.cell p = ⟨q.ahead q.capacity, none⟩ := by
  have hlt := indexOf_lt h q.head
  rw [cell, indexOf, capacity_discard, ← indexOf, hp]
  simp [discard, hlt, ahead]

theorem cell_discard_of_ne (hp : q.indexOf p ≠ q.indexOf q.head) :
    q.discard.cell p = q.cell p := by
  rw [cell, indexOf, capacity_discard, ← indexOf, cell]
  simp [discard, Ne.symm hp]

end Positions

/-! ## Turns -/

section Turns

variable {α : Type} {q : BoundedQueue α}

/-- The stamp of an earlier position is early, up to half of the words back. -/
theorem turn_of_ahead {j k : Nat} (hlt : j < k) (hle : k ≤ j + 0x8000000000000000) :
    Turn.of (q.ahead j) (q.ahead k) = .early := by
  have hj := toNat_ahead q j
  have hk := toNat_ahead q k
  have hsub : (q.ahead j - q.ahead k).toNat = 0x10000000000000000 - (k - j) := by
    rw [UInt64.toNat_sub]
    omega
  have hne : q.ahead j ≠ q.ahead k := by
    intro heq
    rw [heq, UInt64.sub_self, UInt64.toNat_zero] at hsub
    omega
  rw [Turn.of, if_neg hne, if_neg (by omega)]

end Turns

/-! ## The values held -/

/-- A ring that holds some values from its head on, the other cells being free for the values to
come. -/
structure Holds {α : Type} (q : BoundedQueue α) (values : List α) : Prop where
  ringSize : RingSize q.capacity
  length_le : values.length ≤ q.capacity
  tail : q.tail = q.ahead values.length
  written : ∀ k value, values[k]? = some value → q.cell (q.ahead k) = ⟨q.ahead k + 1, some value⟩
  free : ∀ k, values.length ≤ k → k < q.capacity → q.cell (q.ahead k) = ⟨q.ahead k, none⟩

section Holds

variable {α : Type} {q : BoundedQueue α} {values : List α} {value : α}

theorem exists_holds_nil {capacity : Nat} (h : RingSize capacity) :
    ∃ q : BoundedQueue α, new capacity = .ok q ∧ q.capacity = capacity ∧ q.Holds [] := by
  let q : BoundedQueue α := ⟨Array.ofFn fun i : Fin capacity => ⟨UInt64.ofNat i, none⟩, 0, 0⟩
  have hcap : q.capacity = capacity := Array.size_ofFn
  have hsize : RingSize q.capacity := hcap ▸ h
  refine ⟨q, by rw [new, if_pos ⟨h.isPowerOfTwo, h.two_le⟩], hcap, hsize, Nat.zero_le _,
    (ahead_zero q).symm, nofun, ?_⟩
  intro k _ hk
  have hindex : q.indexOf (q.ahead k) = k := by
    rw [indexOf_ahead hsize]
    show (0 + k) % q.capacity = k
    rw [Nat.zero_add, Nat.mod_eq_of_lt hk]
  rw [hcap] at hk
  rw [cell, hindex]
  simp [q, hk, ahead]

/-! ## Storing -/

theorem Holds.tailTurn_of_lt (h : q.Holds values) (hlt : values.length < q.capacity) :
    q.tailTurn = .ready := by
  rw [tailTurn, h.tail, h.free _ (Nat.le_refl _) hlt, Turn.of_self]

/-- The cell at the tail of a full ring is that of the oldest value. -/
theorem Holds.tailTurn_of_full (h : q.Holds values) (hfull : q.capacity ≤ values.length) :
    q.tailTurn = .early := by
  have h2 := h.ringSize.two_le
  have heq : values.length = q.capacity := Nat.le_antisymm h.length_le hfull
  obtain ⟨oldest, holdest⟩ : ∃ v, values[0]? = some v :=
    ⟨_, List.getElem?_eq_getElem (by omega)⟩
  have hcell : q.cell (q.ahead q.capacity) = q.cell (q.ahead 0) := by
    rw [cell, cell, indexOf_ahead_capacity h.ringSize, ahead_zero]
  rw [tailTurn, h.tail, heq, hcell, h.written 0 oldest holdest, ahead_add_one]
  exact turn_of_ahead h2 (Nat.le_trans h.ringSize.le (Nat.le_add_left _ _))

theorem Holds.store (h : q.Holds values) (hlt : values.length < q.capacity) (value : α) :
    (q.store value).Holds (values ++ [value]) := by
  have hsame {k : Nat} (hk : k < q.capacity) (hne : k ≠ values.length) :
      (q.store value).cell (q.ahead k) = q.cell (q.ahead k) := by
    refine cell_store_of_ne ?_ value
    rw [h.tail, Ne, indexOf_ahead_inj h.ringSize hk hlt]
    exact hne
  refine ⟨?_, ?_, ?_, ?_, ?_⟩
  · rw [capacity_store]
    exact h.ringSize
  · rw [capacity_store, List.length_append]
    exact hlt
  · show q.tail + 1 = q.ahead (values ++ [value]).length
    rw [h.tail, ahead_add_one, List.length_append]
    rfl
  · intro k v hv
    show (q.store value).cell (q.ahead k) = ⟨q.ahead k + 1, some v⟩
    rcases Nat.lt_trichotomy k values.length with hk | rfl | hk
    · rw [List.getElem?_append_left hk] at hv
      rw [hsame (by omega) (by omega), h.written k v hv]
    · rw [List.getElem?_concat_length, Option.some.injEq] at hv
      rw [cell_store_of_eq h.ringSize (by rw [h.tail]) value, h.tail, hv]
    · have hlast := (List.getElem?_eq_some_iff.mp hv).1
      rw [List.length_append, List.length_singleton] at hlast
      omega
  · intro k hge hk
    rw [List.length_append, List.length_singleton] at hge
    rw [capacity_store] at hk
    show (q.store value).cell (q.ahead k) = ⟨q.ahead k, none⟩
    rw [hsame hk (by omega), h.free k (by omega) hk]

/-! ## Taking -/

theorem Holds.headTurn_of_nil (h : q.Holds []) : q.headTurn = .early := by
  have h2 := h.ringSize.two_le
  have hcell : (q.cell q.head).stamp = q.ahead 0 := by
    rw [← ahead_zero q, h.free 0 (Nat.le_refl _) (by omega)]
  have hnext : q.head + 1 = q.ahead 1 := by rw [← ahead_add_one, ahead_zero]
  rw [headTurn, hcell, hnext]
  exact turn_of_ahead Nat.zero_lt_one (by decide)

theorem Holds.head_of_cons (h : q.Holds (value :: values)) :
    q.headTurn = .ready ∧ q.headValue = some value := by
  have hcell := h.written 0 value rfl
  rw [ahead_zero] at hcell
  exact ⟨by rw [headTurn, hcell, Turn.of_self], by rw [headValue, hcell]⟩

theorem Holds.discard (h : q.Holds (value :: values)) : q.discard.Holds values := by
  have h2 := h.ringSize.two_le
  have hlen := h.length_le
  rw [List.length_cons] at hlen
  have hsame {k : Nat} (hk : k + 1 < q.capacity) :
      q.discard.cell (q.ahead (k + 1)) = q.cell (q.ahead (k + 1)) := by
    refine cell_discard_of_ne ?_
    rw [← ahead_zero q, Ne, indexOf_ahead_inj h.ringSize hk (by omega)]
    exact Nat.succ_ne_zero k
  refine ⟨?_, ?_, ?_, ?_, ?_⟩
  · rw [capacity_discard]
    exact h.ringSize
  · rw [capacity_discard]
    omega
  · rw [ahead_discard]
    exact h.tail
  · intro k v hv
    have hk := (List.getElem?_eq_some_iff.mp hv).1
    rw [ahead_discard, hsame (by omega)]
    exact h.written (k + 1) v hv
  · intro k hge hk
    rw [capacity_discard] at hk
    rw [ahead_discard]
    rcases Nat.lt_or_ge (k + 1) q.capacity with hlt | hcap
    · rw [hsame hlt]
      exact h.free (k + 1) (Nat.succ_le_succ hge) hlt
    · -- the cell that was taken from, one round on
      have hround : k + 1 = q.capacity := by omega
      rw [hround, cell_discard_of_eq h.ringSize (indexOf_ahead_capacity h.ringSize)]

/-! ## Counting -/

theorem Holds.size (h : q.Holds values) : q.size = values.length := by
  have hle := h.length_le
  have hlt := h.ringSize.isWord
  rw [BoundedQueue.size, h.tail, ahead_sub_head, UInt64.toNat_ofNat']
  omega

theorem Holds.isEmpty (h : q.Holds values) : q.isEmpty = values.isEmpty := by
  rw [BoundedQueue.isEmpty, h.size]
  cases values with
  | nil => rfl
  | cons value rest => rfl

theorem filterMap_getElem?_range (l : List α) :
    (List.range l.length).filterMap (l[·]?) = l := by
  induction l with
  | nil => rfl
  | cons a l ih => simp [List.range_succ_eq_map, List.filterMap_map, ih]

theorem Holds.toList (h : q.Holds values) : q.toList = values := by
  have hvalue : ∀ k ∈ List.range values.length,
      (q.cell (q.head + UInt64.ofNat k)).value = values[k]? := by
    intro k hk
    have hget := List.getElem?_eq_getElem (List.mem_range.mp hk)
    rw [← ahead, h.written k _ hget, hget]
  rw [BoundedQueue.toList, h.size, List.filterMap_congr hvalue, filterMap_getElem?_range]

/-! ## One call -/

theorem Holds.push_of_lt (h : q.Holds values) (hlt : values.length < q.capacity) (value : α) :
    q.push value = (.ok (), q.store value) := by
  rw [push, h.tailTurn_of_lt hlt]

theorem Holds.push_of_full (h : q.Holds values) (hfull : q.capacity ≤ values.length)
    (value : α) : q.push value = (.error value, q) := by
  rw [push, h.tailTurn_of_full hfull]

theorem Holds.pop_nil (h : q.Holds []) : q.pop = (none, q) := by
  rw [pop, h.headTurn_of_nil]

theorem Holds.pop_cons (h : q.Holds (value :: values)) : q.pop = (some value, q.discard) := by
  rw [pop, h.head_of_cons.1, h.head_of_cons.2]

theorem Holds.lookToPush (h : q.Holds values) (value : α) :
    q.lookToPush value = .settled (q.push value) := by
  rcases Nat.lt_or_ge values.length q.capacity with hlt | hfull
  · rw [BoundedQueue.lookToPush, h.tailTurn_of_lt hlt, h.push_of_lt hlt]
  · rw [BoundedQueue.lookToPush, h.tailTurn_of_full hfull, h.push_of_full hfull]

theorem Holds.lookToPop (h : q.Holds values) : q.lookToPop = .settled q.pop := by
  cases values with
  | nil => rw [BoundedQueue.lookToPop, h.headTurn_of_nil, h.pop_nil]
  | cons value rest =>
      rw [BoundedQueue.lookToPop, h.head_of_cons.1, h.head_of_cons.2, h.pop_cons]

end Holds

/-! ## Runs -/

/-- A queue in the state of a bounded list. -/
structure StandsFor {α : Type} (q : BoundedQueue α) (l : BoundedList α) : Prop where
  holds : q.Holds l.values
  capacity : q.capacity = l.capacity

section StandsFor

variable {α : Type} {q : BoundedQueue α} {l : BoundedList α}

/-- Both give one answer to a call, and go on alike. -/
theorem StandsFor.call (h : q.StandsFor l) (c : QueueCall α) :
    (q.call c).1 = (l.call c).1 ∧ (q.call c).2.StandsFor (l.call c).2 := by
  cases c with
  | push value =>
      rw [BoundedQueue.call, BoundedList.call, ← h.capacity]
      split
      · next hlt =>
          rw [h.holds.push_of_lt hlt]
          exact ⟨rfl, h.holds.store hlt value, capacity_store q value⟩
      · next hfull =>
          rw [h.holds.push_of_full (Nat.le_of_not_lt hfull)]
          exact ⟨rfl, h⟩
  | pop =>
      obtain ⟨capacity, values⟩ := l
      rw [BoundedQueue.call, BoundedList.call]
      cases values with
      | nil =>
          rw [h.holds.pop_nil]
          exact ⟨rfl, h⟩
      | cons value rest =>
          rw [h.holds.pop_cons]
          exact ⟨rfl, h.holds.discard, (capacity_discard q).trans h.capacity⟩
  | size => exact ⟨congrArg QueueAnswer.size h.holds.size, h⟩
  | isEmpty => exact ⟨congrArg QueueAnswer.isEmpty h.holds.isEmpty, h⟩

theorem StandsFor.run (h : q.StandsFor l) (calls : List (QueueCall α)) :
    q.answers calls = l.answers calls ∧ (q.after calls).StandsFor (l.after calls) := by
  induction calls generalizing q l with
  | nil => exact ⟨rfl, h⟩
  | cons c rest ih =>
      obtain ⟨hanswer, hnext⟩ := h.call c
      obtain ⟨hanswers, hlast⟩ := ih hnext
      exact ⟨congrArg₂ List.cons hanswer hanswers, hlast⟩

end StandsFor

/-! ## Main result -/

/-- What can be told of a queue that stands for a bounded list. -/
structure Acts {α : Type} (q : BoundedQueue α) (l : BoundedList α) : Prop where
  toList : q.toList = l.values
  length_le : l.values.length ≤ l.capacity
  /-- One look at the tail settles a call, and so does one at the head, where a caller never
  reads a cell without a value. -/
  push : ∀ value, q.lookToPush value = .settled (q.push value)
  pop : q.lookToPop = .settled q.pop
  /-- Without room the value comes back and nothing changes. -/
  full : ∀ value, l.capacity ≤ l.values.length → q.push value = (.error value, q)
  empty : l.values = [] → q.pop = (none, q)

theorem StandsFor.acts {α : Type} {q : BoundedQueue α} {l : BoundedList α} (h : q.StandsFor l) :
    q.Acts l where
  toList := h.holds.toList
  length_le := h.capacity ▸ h.holds.length_le
  push := h.holds.lookToPush
  pop := h.holds.lookToPop
  full value hfull := h.holds.push_of_full (h.capacity ▸ hfull) value
  empty hnil := by
    have hh := h.holds
    rw [hnil] at hh
    exact hh.pop_nil

/-- For every capacity that a ring can have there is a queue, and it answers every sequence of
calls, however long, like a list of at most so many values. -/
theorem answers_eq_boundedList {α : Type} {capacity : Nat} (hp : isPowerOfTwo capacity = true)
    (h2 : 2 ≤ capacity) (hw : capacity < 0x10000000000000000) :
    ∃ q : BoundedQueue α, new capacity = .ok q ∧ ∀ calls,
      q.answers calls = BoundedList.answers ⟨capacity, []⟩ calls ∧
        (q.after calls).Acts (BoundedList.after ⟨capacity, []⟩ calls) := by
  obtain ⟨q, hnew, hcap, hholds⟩ := @exists_holds_nil α capacity ⟨hp, h2, hw⟩
  have hstart : q.StandsFor ⟨capacity, []⟩ := ⟨hholds, hcap⟩
  refine ⟨q, hnew, fun calls => ?_⟩
  obtain ⟨hanswers, hlast⟩ := hstart.run calls
  exact ⟨hanswers, hlast.acts⟩

/-- Three values for a ring of two cells, and one more when the first was taken. -/
def crowdedCalls : List (QueueCall Nat) :=
  [.pop, .push 1, .push 2, .push 3, .size, .pop, .push 4, .pop, .isEmpty]

theorem answers_of_crowdedCalls :
    (isPowerOfTwo 2 = true ∧ 2 ≤ 2 ∧ 2 < 0x10000000000000000) ∧
      ∃ q : BoundedQueue Nat, new 2 = .ok q ∧
        q.answers crowdedCalls = [.popped none, .pushed (.ok ()), .pushed (.ok ()),
          .pushed (.error 3), .size 2, .popped (some 1), .pushed (.ok ()), .popped (some 2),
          .isEmpty false] ∧
        (q.after crowdedCalls).toList = [4] := by
  obtain ⟨q, hnew, hcalls⟩ :=
    @answers_eq_boundedList Nat 2 (by decide) (by decide) (by decide)
  obtain ⟨hanswers, hacts⟩ := hcalls crowdedCalls
  exact ⟨by decide, q, hnew, hanswers, hacts.toList⟩

/-- The position of the first value is the last word, that of the second one is zero. -/
example :
    let last := 0xffffffffffffffff
    let q : BoundedQueue Nat := ⟨#[⟨0, none⟩, ⟨last, none⟩], last, last⟩
    let full := q.after [.push 1, .push 2]
    full.tail = 1 ∧ full.toList = [1, 2] ∧ full.pop.1 = some 1 ∧ full.pop.2.toList = [2] := by
  decide +kernel

end BoundedQueue

end ReliableDatagram
