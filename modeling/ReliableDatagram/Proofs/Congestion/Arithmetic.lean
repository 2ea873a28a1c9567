/-
Windows in words of 32 bits, and packed into one of 64.

Sums and differences of words wrap around.  Here the same transitions are taken
with arithmetic that stops at a result which is no word, and no run ever stops
there, whatever the peer's windows and the modes on its way.

A size grows only below a peer's window, so it is the credit that needs a bound.
A new window counts nothing, and a packed field holds 21 bits; from there on a
credit rises only while it is less than the size, for a full count takes the
size away from it.  The one exception is a window without packets, where there
is nothing to take away; but then it has a packet, and keeps it.  This bound on
the credit is what every event keeps.

The range of a connection's window cannot be used here.  A window that a word holds
need not be in it: its credit may be greater than its size, and it may have no
packets at all.  Hence the weaker invariant, which does without the settings.

The checked transitions follow the unchecked ones line by line, with `Except` for
what a build with overflow checks would stop at.  That they come to the same is
shown transition by transition, each time from the bound alone, and then for runs.

Main statement: a run stops only where it divides by a window without packets,
and packing loses the bits that a field has no room for.
-/
import Mathlib.Data.Nat.Bitwise
import ReliableDatagram.Proofs.Congestion.Events

namespace ReliableDatagram

/-! ## Arithmetic that checks its results -/

/-- What arithmetic stops at. -/
inductive Trap where
  /-- A sum of two words is no word. -/
  | overflow
  /-- A difference of two words is no word. -/
  | underflow
  /-- What stops the unchecked arithmetic, too. -/
  | fault (fault : Fault)
deriving DecidableEq

/-- The sum of two words, if it is a word. -/
def checkedSum (a b : UInt32) : Except Trap UInt32 :=
  if a.toNat + b.toNat < 0x100000000 then .ok (a + b) else .error .overflow

def checkedDifference (a b : UInt32) : Except Trap UInt32 :=
  if b.toNat ≤ a.toNat then .ok (a - b) else .error .underflow

/-- The whole quotient of two words, if there is one. -/
def checkedQuotient (a b : UInt32) : Except Trap UInt32 :=
  if b = 0 then .error (.fault .divisionByZero) else .ok (a / b)

theorem checkedSum_of_lt {a b : UInt32} (h : a.toNat + b.toNat < 0x100000000) :
    checkedSum a b = .ok (a + b) := if_pos h

theorem checkedDifference_of_le {a b : UInt32} (h : b.toNat ≤ a.toNat) :
    checkedDifference a b = .ok (a - b) := if_pos h

namespace CongestionWindow

def checkedEnlarged (w : CongestionWindow) : Except Trap CongestionWindow := do
  let size ← checkedSum w.size 1
  return { w with size }

def checkedCredited (w : CongestionWindow) : Except Trap CongestionWindow := do
  let credit ← checkedSum w.credit 1
  if w.size ≤ credit then
    let left ← checkedDifference credit w.size
    let size ← checkedSum w.size 1
    return { w with size, credit := left }
  else return { w with credit }

def checkedAvoided (w : CongestionWindow) : Avoidance → Except Trap CongestionWindow
  | .fractional => w.checkedCredited
  | .integerDivision => do
    let quotient ← checkedQuotient 1 w.size
    let size ← checkedSum w.size quotient
    return { w with size }

def checkedOnAck (w : CongestionWindow) (windowSize : UInt32) (mode : Avoidance) :
    Except Trap CongestionWindow :=
  if windowSize ≤ w.size then .ok w
  else do
    let grown ← if w.inSlowStart then w.checkedEnlarged else w.checkedAvoided mode
    return grown.capped windowSize

/-- The window after an event, checked; a loss neither adds nor subtracts. -/
def checkedOnEvent (w : CongestionWindow) : WindowEvent → Except Trap CongestionWindow
  | .ack windowSize mode => w.checkedOnAck windowSize mode
  | .loss => .ok w.onLoss

def checkedAfter (w : CongestionWindow) : List WindowEvent → Except Trap CongestionWindow
  | [] => .ok w
  | x :: rest => w.checkedOnEvent x >>= fun v => v.checkedAfter rest

/-- A window to start with: a new one, or the one that a word holds. -/
inductive IsInitial : CongestionWindow → Prop
  | new (size threshold : UInt32) : IsInitial (new size threshold)
  | ofBits (bits : UInt64) : IsInitial (ofBits bits)

/-! ## The bound on the credit -/

/-- The credit is less than the size, or it is what a word held and hardly more. -/
structure Bounded (w : CongestionWindow) : Prop where
  credit : w.credit.toNat < w.size.toNat ∨ w.credit.toNat ≤ fieldRange
  /-- Without packets nothing has been counted since. -/
  credit_of_zero : w.size.toNat = 0 → w.credit.toNat < fieldRange

theorem IsInitial.bounded {w : CongestionWindow} (h : w.IsInitial) : w.Bounded := by
  have hlt : w.credit.toNat < fieldRange := by
    cases h with
    | new size threshold => exact Nat.succ_pos _
    | ofBits bits =>
        rw [CongestionWindow.ofBits, toNat_ofNat_field]
        exact Nat.mod_lt _ (Nat.succ_pos _)
  exact ⟨.inr (Nat.le_of_lt hlt), fun _ => hlt⟩

section Bounded

variable {w v : CongestionWindow} {windowSize : UInt32} {mode : Avoidance} {x : WindowEvent}

theorem Bounded.toNat_credit_succ (h : w.Bounded) :
    w.credit.toNat + 1 < 0x100000000 ∧ (w.credit + 1).toNat = w.credit.toNat + 1 := by
  have hsize := w.size.toNat_lt
  have hrange : fieldRange = 0x200000 := rfl
  have hlt : w.credit.toNat + 1 < 0x100000000 := by
    rcases h.credit with hless | hheld
    · omega
    · omega
  refine ⟨hlt, ?_⟩
  rw [UInt32.toNat_add]
  exact Nat.mod_eq_of_lt hlt

theorem Bounded.credited (h : w.Bounded) (hlt : w.size.toNat < windowSize.toNat) :
    w.credited.Bounded := by
  have hcredit := h.credit
  have hzero := h.credit_of_zero
  have hsize := toNat_size_succ hlt
  have hsucc := h.toNat_credit_succ.2
  unfold CongestionWindow.credited
  by_cases hfull : w.size ≤ w.credit + 1
  · have hle := UInt32.le_iff_toNat_le.mp hfull
    have hleft := UInt32.toNat_sub_of_le _ _ hfull
    rw [if_pos hfull]
    refine ⟨?_, ?_⟩
    · show (w.credit + 1 - w.size).toNat < (w.size + 1).toNat ∨ (w.credit + 1 - w.size).toNat ≤ _
      omega
    · show (w.size + 1).toNat = 0 → _
      omega
  · have hless := Nat.lt_of_not_le (mt UInt32.le_iff_toNat_le.mpr hfull)
    rw [if_neg hfull]
    refine ⟨?_, ?_⟩
    · show (w.credit + 1).toNat < w.size.toNat ∨ _
      omega
    · show w.size.toNat = 0 → _
      omega

theorem Bounded.enlarged (h : w.Bounded) (hlt : w.size.toNat < windowSize.toNat) :
    w.enlarged.Bounded := by
  have hcredit := h.credit
  have hsize := toNat_size_succ hlt
  refine ⟨?_, ?_⟩
  · show w.credit.toNat < (w.size + 1).toNat ∨ w.credit.toNat ≤ _
    omega
  · show (w.size + 1).toNat = 0 → _
    omega

theorem Bounded.onEvent (h : w.Bounded) (hx : w.onEvent x = .ok v) : v.Bounded := by
  cases x with
  | ack windowSize mode =>
      cases acked_of_onAck hx with
      | atWindow | frozen => exact h
      | slowStart hlt | divided hlt => exact h.enlarged hlt
      | fractional hlt => exact h.credited hlt
  | loss =>
      cases hx
      exact ⟨.inr (Nat.zero_le _), fun _ => Nat.succ_pos _⟩

/-! ## Checks that find nothing -/

theorem checkedEnlarged_eq (hlt : w.size.toNat < windowSize.toNat) :
    w.checkedEnlarged = .ok w.enlarged := by
  have hwindow := windowSize.toNat_lt
  have hone : (1 : UInt32).toNat = 1 := rfl
  rw [checkedEnlarged, checkedSum_of_lt (by omega)]
  rfl

theorem Bounded.checkedCredited_eq (h : w.Bounded) (hlt : w.size.toNat < windowSize.toNat) :
    w.checkedCredited = .ok w.credited := by
  have hwindow := windowSize.toNat_lt
  have hone : (1 : UInt32).toNat = 1 := rfl
  have hsum : checkedSum w.credit 1 = .ok (w.credit + 1) :=
    checkedSum_of_lt h.toNat_credit_succ.1
  rw [checkedCredited, hsum, CongestionWindow.credited]
  show (if w.size ≤ w.credit + 1 then _ else _) = _
  by_cases hfull : w.size ≤ w.credit + 1
  · rw [if_pos hfull, if_pos hfull, checkedDifference_of_le (UInt32.le_iff_toNat_le.mp hfull),
      checkedSum_of_lt (by omega)]
    rfl
  · rw [if_neg hfull, if_neg hfull]
    rfl

theorem Bounded.checkedAvoided_eq (h : w.Bounded) (hlt : w.size.toNat < windowSize.toNat)
    (mode : Avoidance) : w.checkedAvoided mode = (w.avoided mode).mapError .fault := by
  cases mode with
  | fractional => exact h.checkedCredited_eq hlt
  | integerDivision =>
      rw [checkedAvoided, checkedQuotient, avoided]
      by_cases hzero : w.size = 0
      · rw [if_pos hzero, if_pos hzero]
        rfl
      · have hwindow := windowSize.toNat_lt
        have hquotient : (1 / w.size).toNat ≤ 1 := by
          rw [UInt32.toNat_div]
          exact Nat.div_le_self _ _
        rw [if_neg hzero, if_neg hzero]
        show (checkedSum w.size (1 / w.size) >>= _) = _
        rw [checkedSum_of_lt (by omega)]
        rfl

theorem Bounded.checkedOnEvent_eq (h : w.Bounded) (x : WindowEvent) :
    w.checkedOnEvent x = (w.onEvent x).mapError .fault := by
  cases x with
  | loss => rfl
  | ack windowSize mode =>
      show w.checkedOnAck windowSize mode = (w.onAck windowSize mode).mapError .fault
      rw [checkedOnAck, onAck]
      by_cases hle : windowSize ≤ w.size
      · rw [if_pos hle, if_pos hle]
        rfl
      · have hlt := Nat.lt_of_not_le (mt UInt32.le_iff_toNat_le.mpr hle)
        rw [if_neg hle, if_neg hle, checkedEnlarged_eq hlt, h.checkedAvoided_eq hlt]
        cases w.inSlowStart with
        | true => rfl
        | false =>
            cases w.avoided mode with
            | ok grown => rfl
            | error fault => rfl

-- A credit that no run comes to: counting on from it is no word.
example : (⟨1, 1, 0xffffffff⟩ : CongestionWindow).checkedOnEvent (.ack 9 .fractional) =
    .error .overflow := by
  decide

/-- A run comes to the same, checked or not. -/
theorem Bounded.checkedAfter_eq (h : w.Bounded) (xs : List WindowEvent) :
    w.checkedAfter xs = (w.after xs).mapError .fault := by
  induction xs generalizing w with
  | nil => rfl
  | cons x rest ih =>
      rw [checkedAfter, after, h.checkedOnEvent_eq x]
      cases hx : w.onEvent x with
      | error fault => rfl
      | ok v => exact ih (h.onEvent hx)

theorem Bounded.after {xs : List WindowEvent} (h : w.Bounded) (hrun : w.after xs = .ok v) :
    v.Bounded :=
  after_invariant (P := Bounded) (fun _ _ _ _ hu hx => hu.onEvent hx) h hrun

end Bounded

/-- An acknowledgement adds no packet or one, and none beyond the peer's window. -/
theorem Acked.size_eq_or_succ {w v : CongestionWindow} {windowSize : UInt32} {mode : Avoidance}
    (h : w.Acked windowSize mode v) : v.size = w.size ∨
    (v.size.toNat = w.size.toNat + 1 ∧ v.size.toNat ≤ windowSize.toNat) := by
  cases h with
  | atWindow | frozen => exact .inl rfl
  | slowStart hlt | divided hlt =>
      have hsucc : w.enlarged.size.toNat = w.size.toNat + 1 := toNat_size_succ hlt
      exact .inr ⟨hsucc, hsucc ▸ hlt⟩
  | fractional hlt =>
      have hsucc : w.enlarged.size.toNat = w.size.toNat + 1 := toNat_size_succ hlt
      rcases credited_cases w with hc | hc
      · rw [hc]
        exact .inl rfl
      · rw [hc]
        exact .inr ⟨hsucc, hsucc ▸ hlt⟩

/-! ## Fields in a word -/

/-- The bits of a value that a packed field has room for. -/
def field (value : UInt32) : UInt64 := value.toUInt64 &&& 0x1fffff

/-- What packing and unpacking come to. -/
structure Packing : Prop where
  /-- The fields lie side by side, 21 bits each, the size lowest. -/
  toBits_eq : ∀ w : CongestionWindow,
    w.toBits = field w.size ||| field w.threshold <<< 21 ||| field w.credit <<< 42
  ofBits_eq : ∀ bits, ofBits bits = ⟨(bits &&& 0x1fffff).toUInt32,
    (bits >>> 21 &&& 0x1fffff).toUInt32, (bits >>> 42 &&& 0x1fffff).toUInt32⟩
  /-- The top bit of a word belongs to no field. -/
  toBits_ofBits : ∀ bits, (ofBits bits).toBits = bits &&& 0x7fffffffffffffff
  /-- Exactly the windows with fields of 21 bits come back as they were packed. -/
  ofBits_toBits_iff : ∀ w, ofBits w.toBits = w ↔
    w.size.toNat < fieldRange ∧ w.threshold.toNat < fieldRange ∧ w.credit.toNat < fieldRange

theorem toNat_field (value : UInt32) : (field value).toNat = value.toNat % fieldRange := by
  rw [field, UInt64.toNat_and, UInt32.toNat_toUInt64]
  exact Nat.and_two_pow_sub_one_eq_mod _ 21

theorem toNat_field_shiftLeft (value : UInt32) {places : UInt64} (hp : places.toNat ≤ 43) :
    (field value <<< places).toNat = (value.toNat % fieldRange) <<< places.toNat := by
  have hvalue : value.toNat % fieldRange < 2 ^ 21 := Nat.mod_lt _ (by decide)
  have hpower : 2 ^ places.toNat ≤ 2 ^ 43 := Nat.pow_le_pow_right (by decide) hp
  have hlt : value.toNat % fieldRange * 2 ^ places.toNat < 2 ^ 21 * 2 ^ 43 :=
    Nat.mul_lt_mul_of_lt_of_le hvalue hpower (by decide)
  rw [UInt64.toNat_shiftLeft, toNat_field, Nat.mod_eq_of_lt (b := 64) (by omega),
    Nat.shiftLeft_eq]
  exact Nat.mod_eq_of_lt hlt

theorem toBits_eq_or (w : CongestionWindow) :
    w.toBits = field w.size ||| field w.threshold <<< 21 ||| field w.credit <<< 42 := by
  have hs : w.size.toNat % fieldRange < 2 ^ 21 := Nat.mod_lt _ (by decide)
  have ht : w.threshold.toNat % fieldRange < 2 ^ 21 := Nat.mod_lt _ (by decide)
  have hlow : w.size.toNat % fieldRange ||| (w.threshold.toNat % fieldRange) <<< 21 =
      w.size.toNat % fieldRange + fieldRange * (w.threshold.toNat % fieldRange) := by
    rw [Nat.or_comm, ← Nat.shiftLeft_add_eq_or_of_lt hs, Nat.shiftLeft_eq, Nat.add_comm,
      Nat.mul_comm]
    rfl
  have hlt : w.size.toNat % fieldRange + fieldRange * (w.threshold.toNat % fieldRange) <
      2 ^ 42 := by
    simp only [fieldRange] at *
    omega
  apply UInt64.toNat_inj.mp
  rw [toNat_toBits, UInt64.toNat_or, UInt64.toNat_or, toNat_field,
    toNat_field_shiftLeft _ (by decide), toNat_field_shiftLeft _ (by decide)]
  show _ = w.size.toNat % fieldRange ||| (w.threshold.toNat % fieldRange) <<< 21 |||
    (w.credit.toNat % fieldRange) <<< 42
  rw [hlow, Nat.or_comm, ← Nat.shiftLeft_add_eq_or_of_lt hlt, Nat.shiftLeft_eq]
  simp only [fieldRange]
  omega

theorem toUInt32_and (bits : UInt64) :
    (bits &&& 0x1fffff).toUInt32 = UInt32.ofNat (bits.toNat % fieldRange) := by
  have hand : bits.toNat &&& 0x1fffff = bits.toNat % fieldRange :=
    Nat.and_two_pow_sub_one_eq_mod _ 21
  apply UInt32.toNat_inj.mp
  rw [UInt64.toNat_toUInt32, UInt64.toNat_and, UInt32.toNat_ofNat', ← hand]
  rfl

theorem ofBits_eq_and (bits : UInt64) : ofBits bits = ⟨(bits &&& 0x1fffff).toUInt32,
    (bits >>> 21 &&& 0x1fffff).toUInt32, (bits >>> 42 &&& 0x1fffff).toUInt32⟩ := by
  have hthreshold : (bits >>> 21).toNat = bits.toNat / fieldRange :=
    (UInt64.toNat_shiftRight _ _).trans (Nat.shiftRight_eq_div_pow _ 21)
  have hcredit : (bits >>> 42).toNat = bits.toNat / fieldRange / fieldRange := by
    rw [Nat.div_div_eq_div_mul]
    exact (UInt64.toNat_shiftRight _ _).trans (Nat.shiftRight_eq_div_pow _ 42)
  rw [ofBits, toUInt32_and, toUInt32_and, toUInt32_and, hthreshold, hcredit]

/-- Three fields of 21 bits leave one bit of a word. -/
theorem toBits_ofBits (bits : UInt64) : (ofBits bits).toBits = bits &&& 0x7fffffffffffffff := by
  have hand : bits.toNat &&& 0x7fffffffffffffff = bits.toNat % 2 ^ 63 :=
    Nat.and_two_pow_sub_one_eq_mod _ 63
  apply UInt64.toNat_inj.mp
  rw [toNat_toBits, UInt64.toNat_and]
  simp only [ofBits, toNat_ofNat_field, Nat.mod_mod]
  refine Eq.trans ?_ hand.symm
  simp only [fieldRange]
  omega

theorem packing : Packing where
  toBits_eq := toBits_eq_or
  ofBits_eq := ofBits_eq_and
  toBits_ofBits := toBits_ofBits
  ofBits_toBits_iff _ := ofBits_toBits_iff

/-! ## Main result -/

/-- What arithmetic comes to at a window that events have led to. -/
structure Safe (w : CongestionWindow) : Prop where
  credit : w.credit.toNat < w.size.toNat ∨ w.credit.toNat ≤ fieldRange
  /-- An event stops only at a division by a window without packets. -/
  stops_iff : ∀ x trap, w.checkedOnEvent x = .error trap ↔
    trap = .fault .divisionByZero ∧ w.size = 0 ∧ w.threshold = 0 ∧
      ∃ windowSize : UInt32, 0 < windowSize.toNat ∧ x = .ack windowSize .integerDivision
  /-- An acknowledgement adds no packet or one, and none beyond the peer's window. -/
  grows : ∀ windowSize mode v, w.checkedOnEvent (.ack windowSize mode) = .ok v →
    v.size = w.size ∨ (v.size.toNat = w.size.toNat + 1 ∧ v.size.toNat ≤ windowSize.toNat)
  /-- From a window with packets every run leads to one. -/
  lasts : 0 < w.size.toNat → ∀ xs, ∃ v, w.checkedAfter xs = .ok v ∧ 0 < v.size.toNat

section Safe

variable {w v : CongestionWindow} {x : WindowEvent} {xs : List WindowEvent} {trap : Trap}

theorem onEvent_eq_error_iff {fault : Fault} : w.onEvent x = .error fault ↔
    fault = .divisionByZero ∧ w.size = 0 ∧ w.threshold = 0 ∧
      ∃ windowSize : UInt32, 0 < windowSize.toNat ∧ x = .ack windowSize .integerDivision := by
  cases x with
  | loss =>
      constructor
      · intro h
        cases h
      · rintro ⟨-, -, -, _, -, hx⟩
        cases hx
  | ack windowSize mode =>
      show w.onAck windowSize mode = .error fault ↔ _
      rw [onAck_eq_error_iff]
      constructor
      · rintro ⟨hfault, rfl, hs, ht, hlt⟩
        exact ⟨hfault, hs, ht, windowSize, hlt, rfl⟩
      · rintro ⟨hfault, hs, ht, _, hlt, hx⟩
        cases hx
        exact ⟨hfault, ⟨rfl, hs, ht, hlt⟩⟩

theorem mapError_eq_ok_iff {u : Except Fault CongestionWindow} :
    u.mapError Trap.fault = .ok v ↔ u = .ok v := by
  cases u with
  | error fault => exact ⟨nofun, nofun⟩
  | ok _ =>
      constructor
      · intro h
        cases h
        rfl
      · intro h
        cases h
        rfl

theorem mapError_eq_error_iff {u : Except Fault CongestionWindow} :
    u.mapError Trap.fault = .error trap ↔ ∃ fault, trap = .fault fault ∧ u = .error fault := by
  cases u with
  | ok _ => exact ⟨nofun, nofun⟩
  | error fault =>
      constructor
      · intro h
        cases h
        exact ⟨fault, rfl, rfl⟩
      · rintro ⟨_, rfl, h⟩
        cases h
        rfl

theorem Bounded.safe (h : w.Bounded) : w.Safe where
  credit := h.credit
  stops_iff x trap := by
    rw [h.checkedOnEvent_eq x, mapError_eq_error_iff]
    constructor
    · rintro ⟨fault, rfl, hx⟩
      obtain ⟨rfl, hempty⟩ := onEvent_eq_error_iff.mp hx
      exact ⟨rfl, hempty⟩
    · rintro ⟨rfl, hempty⟩
      exact ⟨_, rfl, onEvent_eq_error_iff.mpr ⟨rfl, hempty⟩⟩
  grows windowSize mode v hx := by
    rw [h.checkedOnEvent_eq, mapError_eq_ok_iff] at hx
    exact (acked_of_onAck hx).size_eq_or_succ
  lasts hpos xs := by
    obtain ⟨v, hv, hpos'⟩ := exists_after hpos xs
    refine ⟨v, ?_, hpos'⟩
    rw [h.checkedAfter_eq, mapError_eq_ok_iff]
    exact hv

theorem checkedAfter_cons (h : w.checkedOnEvent x = .ok v) (rest : List WindowEvent) :
    w.checkedAfter (x :: rest) = v.checkedAfter rest := by
  rw [checkedAfter, h]
  rfl

theorem checkedAfter_cons_error (h : w.checkedOnEvent x = .error trap) (rest : List WindowEvent) :
    w.checkedAfter (x :: rest) = .error trap := by
  rw [checkedAfter, h]
  rfl

theorem checkedAfter_append {front : List WindowEvent} (h : w.checkedAfter front = .ok v)
    (rest : List WindowEvent) : w.checkedAfter (front ++ rest) = v.checkedAfter rest := by
  induction front generalizing w with
  | nil =>
      cases h
      rfl
  | cons y front ih =>
      cases hy : w.checkedOnEvent y with
      | error stopped =>
          rw [checkedAfter_cons_error hy] at h
          cases h
      | ok u =>
          rw [checkedAfter_cons hy] at h
          rw [List.cons_append, checkedAfter_cons hy, ih h]

/-- A run stops at the first event that stops. -/
theorem exists_of_checkedAfter_error (h : w.checkedAfter xs = .error trap) :
    ∃ front x rest v, xs = front ++ x :: rest ∧ w.checkedAfter front = .ok v ∧
      v.checkedOnEvent x = .error trap := by
  induction xs generalizing w with
  | nil => cases h
  | cons y ys ih =>
      cases hy : w.checkedOnEvent y with
      | error stopped =>
          rw [checkedAfter_cons_error hy] at h
          cases h
          exact ⟨[], y, ys, w, rfl, rfl, hy⟩
      | ok u =>
          rw [checkedAfter_cons hy] at h
          obtain ⟨front, x, rest, v, rfl, hv, hx⟩ := ih h
          exact ⟨y :: front, x, rest, v, rfl, (checkedAfter_cons hy front).trans hv, hx⟩

end Safe

/-- What a run comes to whose arithmetic is checked. -/
structure RunsSafely (first : CongestionWindow) (xs : List WindowEvent) : Prop where
  /-- No sum and no difference on the way leaves 32 bits. -/
  checked : first.checkedAfter xs = (first.after xs).mapError .fault
  /-- The run stops exactly if it comes to a window without packets and threshold, and has to
  divide there although the peer's window has room. -/
  stops_iff : ∀ trap, first.checkedAfter xs = .error trap ↔
    trap = .fault .divisionByZero ∧ ∃ front windowSize rest w,
      xs = front ++ .ack windowSize .integerDivision :: rest ∧
      first.checkedAfter front = .ok w ∧ w.size = 0 ∧ w.threshold = 0 ∧ 0 < windowSize.toNat
  safe : ∀ w, first.checkedAfter xs = .ok w → w.Safe

theorem IsInitial.safe_after {first w : CongestionWindow} (h : first.IsInitial)
    {xs : List WindowEvent} (hrun : first.checkedAfter xs = .ok w) : w.Safe := by
  rw [h.bounded.checkedAfter_eq, mapError_eq_ok_iff] at hrun
  exact (h.bounded.after hrun).safe

theorem IsInitial.runsSafely {first : CongestionWindow} (h : first.IsInitial)
    (xs : List WindowEvent) : first.RunsSafely xs where
  checked := h.bounded.checkedAfter_eq xs
  stops_iff trap := by
    constructor
    · intro hstop
      obtain ⟨front, x, rest, w, heq, hw, hx⟩ := exists_of_checkedAfter_error hstop
      obtain ⟨rfl, hs, ht, windowSize, hlt, rfl⟩ := ((h.safe_after hw).stops_iff x trap).mp hx
      exact ⟨rfl, front, windowSize, rest, w, heq, hw, hs, ht, hlt⟩
    · rintro ⟨rfl, front, windowSize, rest, w, rfl, hw, hs, ht, hlt⟩
      have hx := ((h.safe_after hw).stops_iff _ _).mpr ⟨rfl, hs, ht, windowSize, hlt, rfl⟩
      rw [checkedAfter_append hw, checkedAfter_cons_error hx]
  safe _ hrun := h.safe_after hrun

/-- From every window to start with, new or unpacked, every run keeps its arithmetic within 32 bits
and stops only at a division by a window without packets; and packing a window keeps 21 bits of
each field. -/
theorem safe_of_every_run :
    (∀ first : CongestionWindow, first.IsInitial → ∀ xs, first.RunsSafely xs) ∧ Packing :=
  ⟨fun _ h xs => h.runsSafely xs, packing⟩

/-- A window without packets and with the greatest credit that a word holds. -/
def unpacked : CongestionWindow := ofBits 0x7ffffc0000000000

/-- An acknowledgement by fractions is all it needs to be divided by; without it, it is stopped. -/
theorem safe_of_unpackedRuns :
    unpacked.IsInitial ∧
      unpacked.RunsSafely [.ack 0 .integerDivision, .ack 9 .fractional, .ack 9 .integerDivision] ∧
      unpacked.checkedAfter
        [.ack 0 .integerDivision, .ack 9 .fractional, .ack 9 .integerDivision] =
          .ok ⟨2, 0, 0x200000⟩ ∧
      unpacked.checkedAfter [.ack 0 .integerDivision, .ack 9 .integerDivision] =
        .error (.fault .divisionByZero) ∧
      ofBits (⟨2, 0, 0x200000⟩ : CongestionWindow).toBits ≠ ⟨2, 0, 0x200000⟩ := by
  obtain ⟨hruns, hpacking⟩ := safe_of_every_run
  have hinitial : unpacked.IsInitial := .ofBits _
  have hsafe := hruns unpacked hinitial
  refine ⟨hinitial, hsafe _, ?_, ?_, ?_⟩
  · rw [(hsafe _).checked]
    decide
  · refine ((hsafe _).stops_iff _).mpr ⟨rfl, [.ack 0 .integerDivision], 9, [], unpacked, ?_⟩
    decide
  · rw [Ne, hpacking.ofBits_toBits_iff]
    decide

end CongestionWindow

end ReliableDatagram
