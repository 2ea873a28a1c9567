/-
What happens to a window, event after event.

An acknowledgement does one of five things to a window, by its size, its
threshold and the mode of avoidance; a loss halves it.  Only a loss moves the
threshold or makes the window smaller, and it moves the one to the other.  So
a window that has reached its threshold stays there, under whatever settings,
and no run leads back into slow start.

The five things are the constructors of `Acked`, each with the guard under which it
happens, and with `Stuck` beside it nothing is left out: an acknowledgement does one
of them or divides by a window without packets.  What follows about acknowledgements,
here and in the modules on growth, is a case analysis on `Acked` and does not open the
function again.

A run is a list of events, and one that meets a fault leads nowhere.  What every
event keeps, a run keeps: `after_invariant` is that induction, made once.  The peer's
window and the mode are part of each event, so nothing in a run says that they stay
the same; where a result needs that, it is a hypothesis on the events.
-/
import Mathlib.Algebra.Group.Nat.Defs
import ReliableDatagram.Proofs.Congestion.Bounds

namespace ReliableDatagram

/-- What can happen to a window. -/
inductive WindowEvent where
  | ack (windowSize : UInt32) (mode : Avoidance)
  | loss
deriving DecidableEq

namespace CongestionWindow

def onEvent (w : CongestionWindow) : WindowEvent → Except Fault CongestionWindow
  | .ack windowSize mode => w.onAck windowSize mode
  | .loss => .ok w.onLoss

def after (w : CongestionWindow) : List WindowEvent → Except Fault CongestionWindow
  | [] => .ok w
  | x :: rest => w.onEvent x >>= fun v => v.after rest

section Runs

variable {w v w' : CongestionWindow} {x : WindowEvent} {xs ys rest : List WindowEvent}

theorem after_cons (h : w.onEvent x = .ok v) : w.after (x :: rest) = v.after rest := by
  rw [after, h]
  rfl

theorem exists_of_after_cons (h : w.after (x :: rest) = .ok w') :
    ∃ u, w.onEvent x = .ok u ∧ u.after rest = .ok w' := by
  cases hx : w.onEvent x with
  | error fault =>
      rw [after, hx] at h
      cases h
  | ok u => exact ⟨u, rfl, (after_cons hx).symm.trans h⟩

theorem after_append (h : w.after xs = .ok v) : w.after (xs ++ ys) = v.after ys := by
  induction xs generalizing w with
  | nil =>
      cases h
      rfl
  | cons x rest ih =>
      obtain ⟨u, hx, hrest⟩ := exists_of_after_cons h
      rw [List.cons_append, after_cons hx, ih hrest]

theorem after_invariant {P : CongestionWindow → Prop}
    (hstep : ∀ x ∈ xs, ∀ u u', P u → u.onEvent x = .ok u' → P u') (h : P w)
    (hrun : w.after xs = .ok w') : P w' := by
  induction xs generalizing w with
  | nil =>
      cases hrun
      exact h
  | cons x rest ih =>
      obtain ⟨u, hx, hrest⟩ := exists_of_after_cons hrun
      exact ih (fun y hy => hstep y (List.mem_cons_of_mem _ hy))
        (hstep x List.mem_cons_self w u h hx) hrest

end Runs

/-! ## One acknowledgement -/

/-- All that an acknowledgement can make of a window. -/
inductive Acked (w : CongestionWindow) (windowSize : UInt32) (mode : Avoidance) :
    CongestionWindow → Prop
  | atWindow (h : windowSize.toNat ≤ w.size.toNat) : Acked w windowSize mode w
  | slowStart (h : w.size.toNat < windowSize.toNat) (hs : w.size.toNat < w.threshold.toNat) :
      Acked w windowSize mode w.enlarged
  | fractional (h : w.size.toNat < windowSize.toNat) (hs : w.threshold.toNat ≤ w.size.toNat)
      (hm : mode = .fractional) : Acked w windowSize mode w.credited
  /-- One divided by one. -/
  | divided (h : w.size.toNat < windowSize.toNat) (hs : w.threshold.toNat ≤ w.size.toNat)
      (hm : mode = .integerDivision) (hone : w.size = 1) : Acked w windowSize mode w.enlarged
  /-- One divided by more than one. -/
  | frozen (h : w.size.toNat < windowSize.toNat) (hs : w.threshold.toNat ≤ w.size.toNat)
      (hm : mode = .integerDivision) (htwo : 2 ≤ w.size.toNat) : Acked w windowSize mode w

/-- No packets and no threshold, but a peer's window to grow for: what integer division cannot
deal with. -/
structure Stuck (w : CongestionWindow) (windowSize : UInt32) (mode : Avoidance) : Prop where
  mode_eq : mode = .integerDivision
  size_eq : w.size = 0
  threshold_eq : w.threshold = 0
  room : 0 < windowSize.toNat

section Ack

variable {w w' : CongestionWindow} {windowSize : UInt32} {mode : Avoidance}

theorem inSlowStart_iff : w.inSlowStart = true ↔ w.size.toNat < w.threshold.toNat := by
  rw [inSlowStart, decide_eq_true_iff, UInt32.lt_iff_toNat_lt]

theorem inSlowStart_eq_false_iff :
    w.inSlowStart = false ↔ w.threshold.toNat ≤ w.size.toNat := by
  rw [Bool.eq_false_iff, Ne, inSlowStart_iff, Nat.not_lt]

theorem credited_cases (w : CongestionWindow) :
    w.credited = { w with credit := w.credit + 1 } ∨
      w.credited = { w.enlarged with credit := w.credit + 1 - w.size } := by
  unfold credited
  by_cases hfull : w.size ≤ w.credit + 1
  · rw [if_pos hfull]
    exact .inr rfl
  · rw [if_neg hfull]
    exact .inl rfl

theorem size_credited_le (h : w.size.toNat < windowSize.toNat) :
    w.size.toNat ≤ w.credited.size.toNat ∧ w.credited.size.toNat ≤ windowSize.toNat := by
  have hsucc := toNat_size_succ h
  rcases credited_cases w with hc | hc
  · rw [hc]
    exact ⟨Nat.le_refl _, Nat.le_of_lt h⟩
  · rw [hc]
    simp only [enlarged]
    omega

theorem add_div_size (h : 2 ≤ w.size.toNat) : w.size + 1 / w.size = w.size := by
  apply UInt32.toNat_inj.mp
  have hzero : 1 / w.size.toNat = 0 := Nat.div_eq_of_lt h
  have hone : (1 : UInt32).toNat = 1 := rfl
  rw [UInt32.toNat_add, UInt32.toNat_div, hone, hzero, Nat.add_zero]
  exact Nat.mod_eq_of_lt w.size.toNat_lt

theorem onAck_of_acked (h : w.Acked windowSize mode w') : w.onAck windowSize mode = .ok w' := by
  -- below the peer's window one more packet is never cut off
  have hroom (hlt : w.size.toNat < windowSize.toNat) : ¬ windowSize ≤ w.size := by
    rw [UInt32.le_iff_toNat_le]
    omega
  have hlarge (hlt : w.size.toNat < windowSize.toNat) :
      w.enlarged.capped windowSize = w.enlarged := by
    refine capped_of_le ?_
    have hsucc := toNat_size_succ hlt
    simp only [enlarged]
    omega
  cases h with
  | atWindow hle => exact onAck_of_le (UInt32.le_iff_toNat_le.mpr hle) mode
  | slowStart hlt hs => rw [onAck, if_neg (hroom hlt), if_pos (inSlowStart_iff.mpr hs), hlarge hlt]
  | fractional hlt hs hm =>
      rw [onAck, if_neg (hroom hlt), inSlowStart_eq_false_iff.mpr hs, hm, avoided, Except.map,
        capped_of_le (size_credited_le hlt).2]
      rfl
  | divided hlt hs hm hone =>
      have hdiv : { w with size := w.size + 1 / w.size } = w.enlarged := by
        rw [enlarged, hone]
        rfl
      have hne : w.size ≠ 0 := by
        rw [hone]
        decide
      rw [onAck, if_neg (hroom hlt), inSlowStart_eq_false_iff.mpr hs, hm, avoided, if_neg hne,
        hdiv, Except.map, hlarge hlt]
      rfl
  | frozen hlt hs hm htwo =>
      have hne : w.size ≠ 0 := by
        intro hzero
        rw [hzero] at htwo
        exact absurd htwo (by decide)
      rw [onAck, if_neg (hroom hlt), inSlowStart_eq_false_iff.mpr hs, hm, avoided, if_neg hne,
        add_div_size htwo, Except.map, capped_of_le (Nat.le_of_lt hlt)]
      rfl

theorem onAck_of_stuck (h : w.Stuck windowSize mode) :
    w.onAck windowSize mode = .error .divisionByZero := by
  have hroom : ¬ windowSize ≤ w.size := by
    rw [h.size_eq, UInt32.le_iff_toNat_le]
    exact Nat.not_le.mpr h.room
  have hslow : w.inSlowStart = false := by
    rw [inSlowStart_eq_false_iff, h.threshold_eq]
    exact Nat.zero_le _
  rw [onAck, if_neg hroom, hslow, h.mode_eq, avoided, if_pos h.size_eq]
  rfl

theorem acked_or_stuck (w : CongestionWindow) (windowSize : UInt32) (mode : Avoidance) :
    (∃ w', w.Acked windowSize mode w') ∨ w.Stuck windowSize mode := by
  by_cases hle : windowSize.toNat ≤ w.size.toNat
  · exact .inl ⟨_, .atWindow hle⟩
  have hlt := Nat.lt_of_not_le hle
  by_cases hs : w.size.toNat < w.threshold.toNat
  · exact .inl ⟨_, .slowStart hlt hs⟩
  have hs := Nat.le_of_not_lt hs
  cases mode with
  | fractional => exact .inl ⟨_, .fractional hlt hs rfl⟩
  | integerDivision =>
      by_cases hzero : w.size.toNat = 0
      · have hthreshold : w.threshold.toNat = 0 := Nat.eq_zero_of_le_zero (hzero ▸ hs)
        have hroom : 0 < windowSize.toNat := Nat.zero_lt_of_lt hlt
        exact .inr ⟨rfl, UInt32.toNat_inj.mp hzero, UInt32.toNat_inj.mp hthreshold, hroom⟩
      by_cases hone : w.size.toNat = 1
      · exact .inl ⟨_, .divided hlt hs rfl (UInt32.toNat_inj.mp hone)⟩
      · exact .inl ⟨_, .frozen hlt hs rfl (by omega)⟩

theorem exists_acked (windowSize : UInt32) (mode : Avoidance) (h : 0 < w.size.toNat) :
    ∃ w', w.Acked windowSize mode w' := by
  refine (acked_or_stuck w windowSize mode).resolve_right fun hstuck => ?_
  rw [hstuck.size_eq] at h
  exact Nat.lt_irrefl 0 h

/-- An acknowledgement does what the cases say, and nothing else. -/
theorem acked_of_onAck (h : w.onAck windowSize mode = .ok w') : w.Acked windowSize mode w' := by
  rcases acked_or_stuck w windowSize mode with ⟨v, hv⟩ | hstuck
  · rw [onAck_of_acked hv] at h
    cases h
    exact hv
  · rw [onAck_of_stuck hstuck] at h
    cases h

theorem onAck_eq_error_iff {fault : Fault} : w.onAck windowSize mode = .error fault ↔
    fault = .divisionByZero ∧ w.Stuck windowSize mode := by
  constructor
  · intro h
    rcases acked_or_stuck w windowSize mode with ⟨v, hv⟩ | hstuck
    · rw [onAck_of_acked hv] at h
      cases h
    · rw [onAck_of_stuck hstuck] at h
      cases h
      exact ⟨rfl, hstuck⟩
  · rintro ⟨rfl, hstuck⟩
    exact onAck_of_stuck hstuck

theorem Acked.threshold_eq (h : w.Acked windowSize mode w') : w'.threshold = w.threshold := by
  cases h with
  | atWindow | slowStart | divided | frozen => rfl
  | fractional hlt hs hm =>
      rcases credited_cases w with hc | hc
      · rw [hc]
      · rw [hc]
        rfl

theorem Acked.size_le (h : w.Acked windowSize mode w') : w.size.toNat ≤ w'.size.toNat := by
  cases h with
  | atWindow | frozen => exact Nat.le_refl _
  | slowStart hlt | divided hlt =>
      simp only [enlarged, toNat_size_succ hlt]
      exact Nat.le_succ _
  | fractional hlt => exact (size_credited_le hlt).1

end Ack

/-! ## Runs -/

section Runs

variable {w v w' : CongestionWindow} {xs : List WindowEvent}

/-- From a window with packets every run leads to one. -/
theorem exists_after (h : 0 < w.size.toNat) (xs : List WindowEvent) :
    ∃ w', w.after xs = .ok w' ∧ 0 < w'.size.toNat := by
  induction xs generalizing w with
  | nil => exact ⟨w, rfl, h⟩
  | cons x rest ih =>
      cases x with
      | ack windowSize mode =>
          obtain ⟨v, hv⟩ := exists_acked windowSize mode h
          have hpos := Nat.lt_of_lt_of_le h hv.size_le
          have hx : w.onEvent (.ack windowSize mode) = .ok v := onAck_of_acked hv
          rw [after_cons hx]
          exact ih hpos
      | loss =>
          have hx : w.onEvent .loss = .ok w.onLoss := rfl
          rw [after_cons hx]
          refine ih ?_
          rw [toNat_size_onLoss]
          omega

theorem threshold_le_size_after (h : w.threshold.toNat ≤ w.size.toNat)
    (hrun : w.after xs = .ok w') : w'.threshold.toNat ≤ w'.size.toNat := by
  refine after_invariant (P := fun u => u.threshold.toNat ≤ u.size.toNat) ?_ h hrun
  intro x _ u u' hu hx
  cases x with
  | ack windowSize mode =>
      have hacked := acked_of_onAck hx
      rw [hacked.threshold_eq]
      exact Nat.le_trans hu hacked.size_le
  | loss =>
      cases hx
      exact Nat.le_refl _

/-- A loss ends slow start for good. -/
theorem threshold_le_size_of_loss (hl : .loss ∈ xs) (hrun : w.after xs = .ok w') :
    w'.threshold.toNat ≤ w'.size.toNat := by
  induction xs generalizing w with
  | nil => cases hl
  | cons x rest ih =>
      obtain ⟨u, hx, hrest⟩ := exists_of_after_cons hrun
      rcases List.mem_cons.mp hl with rfl | hl
      · cases hx
        exact threshold_le_size_after (Nat.le_refl _) hrest
      · exact ih hl hrest

/-- Losses in a row halve a window each, down to one packet. -/
theorem after_losses (k : Nat) (h : 0 < k ∨ 0 < w.size.toNat) :
    ∃ v, w.after (List.replicate k .loss) = .ok v ∧
      v.size.toNat = max 1 (w.size.toNat / 2 ^ k) := by
  induction k generalizing w with
  | zero =>
      refine ⟨w, rfl, ?_⟩
      have hpos : 0 < w.size.toNat := h.resolve_left (Nat.lt_irrefl 0)
      rw [Nat.pow_zero, Nat.div_one]
      omega
  | succ k ih =>
      have hhalf := w.toNat_size_onLoss
      obtain ⟨v, hv, hsize⟩ := ih (w := w.onLoss) (.inr (by omega))
      refine ⟨v, hv, ?_⟩
      rw [hsize, hhalf, Nat.pow_succ', ← Nat.div_div_eq_div_mul]
      rcases Nat.eq_zero_or_pos (w.size.toNat / 2) with hzero | hpos
      · have hone : 1 / 2 ^ k ≤ 1 := Nat.div_le_self _ _
        rw [hzero, Nat.zero_div, Nat.max_eq_left (Nat.zero_le 1), Nat.max_eq_left hone]
      · rw [Nat.max_eq_right hpos]

end Runs

end CongestionWindow

end ReliableDatagram
