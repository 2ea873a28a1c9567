/-
The range that congestion control stays in.

A connection's window never leaves the range from one packet to the peer's
window, its threshold fits into a packed field, and the credit is less than
the window.  A window in that range loses nothing when it is packed into a
word, and no acknowledgement has to divide by zero.

`Within` is that range, and its parts depend on each other.  The size has to
stay below the peer's window for the sum with one more packet to fit a word; the
credit has to stay below the size for the count to end; and the size has to be one
at least for the quotient to exist.  So they are kept together, through
acknowledgements by the branches of the function, and through losses by what half of
a window is.

The range is the peer's window, not the field.  What the checks of the settings add
is that the peer's window itself fits a field, and that the first window is in range.
The last section draws that from the chain of checks; it is all that the theory of
engines has to know about settings and windows.
-/
import ReliableDatagram.Engine.Basic

namespace ReliableDatagram

namespace CongestionWindow

/-- A window between one packet and `windowSize`, with fields that can be packed. -/
structure Within (w : CongestionWindow) (windowSize : UInt32) : Prop where
  pos : 0 < w.size.toNat
  le : w.size.toNat ≤ windowSize.toNat
  threshold_lt : w.threshold.toNat < fieldRange
  credit_lt : w.credit.toNat < w.size.toNat

/-! ## Packing -/

theorem toNat_toBits (w : CongestionWindow) :
    w.toBits.toNat = w.size.toNat % fieldRange +
      fieldRange * (w.threshold.toNat % fieldRange + fieldRange * (w.credit.toNat % fieldRange)) := by
  simp only [toBits, UInt64.toNat_ofNat', fieldRange]
  omega

theorem toNat_ofNat_field (n : Nat) :
    (UInt32.ofNat (n % fieldRange)).toNat = n % fieldRange := by
  have hlt : n % fieldRange < fieldRange := Nat.mod_lt n (by decide)
  exact UInt32.toNat_ofNat_of_lt' (Nat.lt_trans hlt (by decide))

theorem ofNat_field_eq_iff (value : UInt32) :
    UInt32.ofNat (value.toNat % fieldRange) = value ↔ value.toNat < fieldRange := by
  rw [← UInt32.toNat_inj, toNat_ofNat_field]
  exact Nat.mod_eq_iff_lt (by decide)

/-- Packing cuts every field to its bits and loses nothing else. -/
theorem ofBits_toBits_eq (w : CongestionWindow) :
    ofBits w.toBits = ⟨UInt32.ofNat (w.size.toNat % fieldRange),
      UInt32.ofNat (w.threshold.toNat % fieldRange),
      UInt32.ofNat (w.credit.toNat % fieldRange)⟩ := by
  have hb := w.toNat_toBits
  have hsize : w.toBits.toNat % fieldRange = w.size.toNat % fieldRange := by
    simp only [fieldRange] at *
    omega
  have hthreshold : w.toBits.toNat / fieldRange % fieldRange =
      w.threshold.toNat % fieldRange := by
    simp only [fieldRange] at *
    omega
  have hcredit : w.toBits.toNat / fieldRange / fieldRange % fieldRange =
      w.credit.toNat % fieldRange := by
    simp only [fieldRange] at *
    omega
  rw [ofBits, hsize, hthreshold, hcredit]

theorem ofBits_toBits_iff {w : CongestionWindow} :
    ofBits w.toBits = w ↔ w.size.toNat < fieldRange ∧ w.threshold.toNat < fieldRange ∧
      w.credit.toNat < fieldRange := by
  rw [ofBits_toBits_eq, ← ofNat_field_eq_iff, ← ofNat_field_eq_iff, ← ofNat_field_eq_iff]
  cases w
  exact Iff.of_eq (CongestionWindow.mk.injEq ..)

theorem Within.ofBits_toBits {w : CongestionWindow} {windowSize : UInt32}
    (h : w.Within windowSize) (hm : windowSize ≤ maxWindow) : ofBits w.toBits = w := by
  have hm' : windowSize.toNat ≤ 2097151 := UInt32.le_iff_toNat_le.mp hm
  have := h.le
  have := h.credit_lt
  refine ofBits_toBits_iff.mpr ⟨?_, h.threshold_lt, ?_⟩
  all_goals
    simp only [fieldRange]
    omega

/-! ## Transitions -/

theorem toNat_effective (w : CongestionWindow) (windowSize : UInt32) :
    (w.effective windowSize).toNat = min w.size.toNat windowSize.toNat := by
  show (if w.size ≤ windowSize then w.size else windowSize).toNat = _
  split
  · rename_i h
    exact (Nat.min_eq_left (UInt32.le_iff_toNat_le.mp h)).symm
  · rename_i h
    exact (Nat.min_eq_right (by rw [UInt32.le_iff_toNat_le] at h; omega)).symm

theorem effective_of_le {w : CongestionWindow} {windowSize : UInt32}
    (h : w.size.toNat ≤ windowSize.toNat) : w.effective windowSize = w.size := by
  apply UInt32.toNat_inj.mp
  rw [toNat_effective, Nat.min_eq_left h]

theorem capped_of_le {w : CongestionWindow} {windowSize : UInt32}
    (h : w.size.toNat ≤ windowSize.toNat) : w.capped windowSize = w := by
  simp only [capped, effective_of_le h]

section Growth

variable {w : CongestionWindow} {windowSize : UInt32}

theorem toNat_size_succ (h : w.size.toNat < windowSize.toNat) :
    (w.size + 1).toNat = w.size.toNat + 1 := by
  have := windowSize.toNat_lt
  rw [UInt32.toNat_add]
  exact Nat.mod_eq_of_lt (by simp only [UInt32.reduceToNat]; omega)

theorem toNat_credit_succ (h : w.credit.toNat < w.size.toNat) :
    (w.credit + 1).toNat = w.credit.toNat + 1 := by
  have := w.size.toNat_lt
  rw [UInt32.toNat_add]
  exact Nat.mod_eq_of_lt (by simp only [UInt32.reduceToNat]; omega)

theorem Within.enlarged (h : w.Within windowSize) (hw : w.size.toNat < windowSize.toNat) :
    w.enlarged.Within windowSize := by
  have hs := toNat_size_succ hw
  have := h.credit_lt
  exact ⟨by simp only [CongestionWindow.enlarged]; omega,
    by simp only [CongestionWindow.enlarged]; omega,
    h.threshold_lt,
    by simp only [CongestionWindow.enlarged]; omega⟩

theorem Within.credited (h : w.Within windowSize) (hw : w.size.toNat < windowSize.toNat) :
    w.credited.Within windowSize := by
  have hs := toNat_size_succ hw
  have hlt := h.credit_lt
  have hc := toNat_credit_succ hlt
  unfold CongestionWindow.credited
  by_cases hfull : w.size ≤ w.credit + 1
  · rw [if_pos hfull]
    have hle := UInt32.le_iff_toNat_le.mp hfull
    have hz : (w.credit + 1 - w.size).toNat = 0 := by
      rw [UInt32.toNat_sub_of_le _ _ hfull]
      omega
    exact ⟨by simp only; omega, by simp only; omega, h.threshold_lt, by simp only; omega⟩
  · rw [if_neg hfull]
    rw [UInt32.le_iff_toNat_le] at hfull
    exact ⟨h.pos, h.le, h.threshold_lt, by simp only; omega⟩

theorem Within.avoided (h : w.Within windowSize) (hw : w.size.toNat < windowSize.toNat)
    (mode : Avoidance) : ∃ w', w.avoided mode = .ok w' ∧ w'.Within windowSize := by
  cases mode with
  | fractional => exact ⟨w.credited, rfl, h.credited hw⟩
  | integerDivision =>
      have hne : w.size ≠ 0 := by
        intro h0
        have := h.pos
        rw [h0] at this
        exact absurd this (by decide)
      obtain ⟨step, hstep, hadd⟩ : ∃ step, step ≤ 1 ∧
          (w.size + 1 / w.size).toNat = w.size.toNat + step := by
        have := windowSize.toNat_lt
        have hdiv : 1 / w.size.toNat ≤ 1 := Nat.div_le_self _ _
        refine ⟨1 / w.size.toNat, hdiv, ?_⟩
        rw [UInt32.toNat_add, UInt32.toNat_div]
        exact Nat.mod_eq_of_lt (by simp only [UInt32.reduceToNat]; omega)
      have := h.pos
      have := h.credit_lt
      refine ⟨{ w with size := w.size + 1 / w.size }, ?_, ?_, ?_, h.threshold_lt, ?_⟩
      · simp only [CongestionWindow.avoided, if_neg hne]
      · simp only; omega
      · simp only; omega
      · simp only; omega

/-- An acknowledgement never fails on a window in its range, and keeps it there. -/
theorem Within.onAck (h : w.Within windowSize) (mode : Avoidance) :
    ∃ w', w.onAck windowSize mode = .ok w' ∧ w'.Within windowSize := by
  by_cases hw : windowSize ≤ w.size
  · exact ⟨w, onAck_of_le hw mode, h⟩
  · have hlt : w.size.toNat < windowSize.toNat := by
      rw [UInt32.le_iff_toNat_le] at hw
      omega
    unfold CongestionWindow.onAck
    rw [if_neg hw]
    by_cases hslow : w.inSlowStart = true
    · rw [if_pos hslow]
      have he := h.enlarged hlt
      exact ⟨_, rfl, (capped_of_le he.le).symm ▸ he⟩
    · rw [if_neg hslow]
      obtain ⟨w', hok, ha⟩ := h.avoided hlt mode
      exact ⟨w', by rw [hok, Except.map, capped_of_le ha.le], ha⟩

end Growth

theorem toNat_size_onLoss (w : CongestionWindow) :
    w.onLoss.size.toNat = max 1 (w.size.toNat / 2) := by
  have hd : (w.size / 2).toNat = w.size.toNat / 2 := UInt32.toNat_div _ _
  show (if 1 ≤ w.size / 2 then w.size / 2 else 1).toNat = _
  split
  · rename_i hc
    rw [UInt32.le_iff_toNat_le, hd] at hc
    exact hd.trans (Nat.max_eq_right hc).symm
  · rename_i hc
    rw [UInt32.le_iff_toNat_le, hd] at hc
    rw [Nat.max_eq_left (by simp only [UInt32.reduceToNat] at hc; omega)]
    rfl

/-- A loss keeps a window in its range. -/
theorem Within.onLoss {w : CongestionWindow} {windowSize : UInt32} (h : w.Within windowSize)
    (hm : windowSize ≤ maxWindow) : w.onLoss.Within windowSize := by
  have hm' : windowSize.toNat ≤ 2097151 := UInt32.le_iff_toNat_le.mp hm
  have hpos := h.pos
  have hle := h.le
  have hhalf := w.toNat_size_onLoss
  have hthreshold : w.onLoss.threshold.toNat = w.onLoss.size.toNat := rfl
  have hcredit : w.onLoss.credit.toNat = 0 := rfl
  exact ⟨by omega, by omega, by simp only [fieldRange]; omega, by omega⟩

end CongestionWindow

namespace Reliability

open CongestionWindow

/-! ## Settings that pass their checks -/

theorem ite_some_eq_none {p : Prop} [Decidable p] {α : Type} {a : α} {rest : Option α} :
    (if p then some a else rest) = none ↔ ¬ p ∧ rest = none := by
  split
  · simp [*]
  · simp [*]

section Valid

variable {c : Reliability}

/-- What the checks leave. -/
theorem Valid.checks (h : c.Valid) :
    c.windowSize ≤ maxWindow ∧ c.initialWindow ≠ 0 ∧ c.initialWindow ≤ c.windowSize ∧
      c.initialThreshold ≤ maxWindow ∧ isPowerOfTwo c.tableSize = true ∧
      2 * c.windowSize.toNat < c.tableSize ∧ c.receiveCapacity ≠ 0 := by
  simp only [Valid, defect?, ite_some_eq_none] at h
  obtain ⟨-, hw, hi, ht, hp, hs, -, hr, -⟩ := h
  rw [not_or] at hi
  exact ⟨UInt32.not_lt.mp hw, hi.1, UInt32.not_lt.mp hi.2, UInt32.not_lt.mp ht,
    Decidable.not_not.mp hp, Nat.lt_of_not_le hs, hr⟩

theorem Valid.windowSize_le (h : c.Valid) : c.windowSize ≤ maxWindow := h.checks.1

theorem Valid.isPowerOfTwo_tableSize (h : c.Valid) : isPowerOfTwo c.tableSize = true :=
  h.checks.2.2.2.2.1

theorem Valid.firstWindow_within (h : c.Valid) : c.firstWindow.Within c.windowSize := by
  obtain ⟨hw, hne, hle, ht, -, -, -⟩ := h.checks
  have hpos : 0 < c.initialWindow.toNat := by
    refine Nat.pos_of_ne_zero fun h0 => hne ?_
    exact UInt32.toNat_inj.mp h0
  refine ⟨hpos, UInt32.le_iff_toNat_le.mp hle, ?_, hpos⟩
  have : c.initialThreshold.toNat ≤ 2097151 := UInt32.le_iff_toNat_le.mp ht
  simp only [firstWindow, CongestionWindow.new, fieldRange]
  omega

end Valid

theorem grown_within {c : Reliability} {w : CongestionWindow} (h : w.Within c.windowSize) :
    (c.grown w).Within c.windowSize := by
  obtain ⟨w', hok, hw⟩ := h.onAck c.avoidance
  simp only [grown, hok]
  exact hw

end Reliability

end ReliableDatagram
