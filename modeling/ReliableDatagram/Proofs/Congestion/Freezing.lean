/-
A window that integer division holds fast.

One divided by the window is one for a window of one packet and zero for every
larger one.  So in this mode a window at or above its threshold grows from one
packet to two and never further; only slow start leads on, and a loss ends
that for good.  Neither of them counts anything.

What carries over from event to event is that both the size and the threshold
stay below one bound, which is two at least: slow start ends at the threshold,
the step from one to two ends at two, and a loss makes both smaller.  `Confined` is
this invariant, with the bound as a parameter.  The same lemma about one event then
serves twice: with the first threshold as the bound for a whole run, and with half
of the window that met the first loss as the bound for the rest of it.

A window that acknowledgements leave as it is, is named by its guard and not by its
history: two packets or more, and not below the threshold.

Main statement: how large such a window can become, before a loss and after it.
-/
import ReliableDatagram.Proofs.Congestion.Growth

namespace ReliableDatagram

/-- An event of a connection with these settings. -/
def WindowEvent.Under (windowSize : UInt32) (mode : Avoidance) : WindowEvent → Prop
  | .ack n m => n = windowSize ∧ m = mode
  | .loss => True

namespace CongestionWindow

/-- A window that counts nothing and is not led beyond `bound`, neither by its threshold. -/
structure Confined (w : CongestionWindow) (windowSize : UInt32) (bound : Nat) : Prop
    extends Within w windowSize where
  credit : w.credit = 0
  size_le : w.size.toNat ≤ bound
  threshold_le : w.threshold.toNat ≤ bound

section Confined

variable {w v w' : CongestionWindow} {windowSize : UInt32} {bound : Nat} {x : WindowEvent}
  {xs : List WindowEvent}

theorem Confined.acked (h : w.Confined windowSize bound) (htwo : 2 ≤ bound)
    (ha : w.Acked windowSize .integerDivision v) : v.Confined windowSize bound := by
  have hwithin : v.Within windowSize := by
    obtain ⟨u, hu, hw⟩ := h.toWithin.onAck .integerDivision
    rw [onAck_of_acked ha] at hu
    cases hu
    exact hw
  have hone : (1 : UInt32).toNat = 1 := rfl
  cases ha with
  | atWindow | frozen => exact h
  | slowStart hlt hs =>
      have hsize : w.enlarged.size.toNat = w.size.toNat + 1 := toNat_size_succ hlt
      exact ⟨hwithin, h.credit, by have := h.threshold_le; omega, h.threshold_le⟩
  | fractional _ _ hm => cases hm
  | divided hlt _ _ hsize =>
      have hsucc : w.enlarged.size.toNat = w.size.toNat + 1 := toNat_size_succ hlt
      exact ⟨hwithin, h.credit, by rw [hsucc, hsize, hone]; exact htwo, h.threshold_le⟩

/-- A loss confines a window to half of what it was, but not to less than two packets. -/
theorem confined_onLoss (h : w.Within windowSize) (hm : windowSize ≤ maxWindow) :
    w.onLoss.Confined windowSize (max 2 (w.size.toNat / 2)) := by
  have hhalf := w.toNat_size_onLoss
  have hthreshold : w.onLoss.threshold.toNat = w.onLoss.size.toNat := rfl
  exact ⟨h.onLoss hm, rfl, by omega, by omega⟩

theorem Confined.mono {larger : Nat} (h : w.Confined windowSize bound) (hle : bound ≤ larger) :
    w.Confined windowSize larger :=
  ⟨h.toWithin, h.credit, Nat.le_trans h.size_le hle, Nat.le_trans h.threshold_le hle⟩

theorem Confined.onEvent (h : w.Confined windowSize bound) (htwo : 2 ≤ bound)
    (hm : windowSize ≤ maxWindow) (hx : x.Under windowSize .integerDivision)
    (he : w.onEvent x = .ok v) : v.Confined windowSize bound := by
  cases x with
  | ack n mode =>
      obtain ⟨rfl, rfl⟩ := hx
      exact h.acked htwo (acked_of_onAck he)
  | loss =>
      cases he
      refine (confined_onLoss h.toWithin hm).mono ?_
      have := h.size_le
      omega

theorem Confined.after (h : w.Confined windowSize bound) (htwo : 2 ≤ bound)
    (hm : windowSize ≤ maxWindow) (hx : ∀ x ∈ xs, x.Under windowSize .integerDivision)
    (hrun : w.after xs = .ok w') : w'.Confined windowSize bound :=
  after_invariant (P := fun u => u.Confined windowSize bound)
    (fun x hmem _ _ hu he => hu.onEvent htwo hm (hx x hmem) he) h hrun

theorem grows_to_two (ht : w.threshold.toNat ≤ w.size.toNat) (hpos : 0 < w.size.toNat)
    (hx : x.Under windowSize .integerDivision) (he : w.onEvent x = .ok v) :
    v.size.toNat ≤ w.size.toNat ∨ (w.size = 1 ∧ v.size = 2) := by
  cases x with
  | ack n mode =>
      obtain ⟨rfl, rfl⟩ := hx
      cases acked_of_onAck he with
      | atWindow | frozen => exact .inl (Nat.le_refl _)
      | slowStart _ hs => exact absurd hs (Nat.not_lt.mpr ht)
      | fractional _ _ hm => cases hm
      | divided _ _ _ hone =>
          refine .inr ⟨hone, ?_⟩
          rw [enlarged, hone]
          rfl
  | loss =>
      cases he
      have hhalf := w.toNat_size_onLoss
      exact .inl (by omega)

end Confined

/-- From two packets on, and from the threshold on, acknowledgements change nothing. -/
theorem acked_self {w : CongestionWindow} {windowSize : UInt32}
    (h : max 2 w.threshold.toNat ≤ w.size.toNat) : w.Acked windowSize .integerDivision w := by
  by_cases hle : windowSize.toNat ≤ w.size.toNat
  · exact .atWindow hle
  · exact .frozen (Nat.lt_of_not_le hle) (by omega) rfl (by omega)

end CongestionWindow

open CongestionWindow

/-! ## Main result -/

/-- A window after the events `xs` of a connection with settings `c`. -/
structure Reliability.Freezes (c : Reliability) (xs : List WindowEvent) (w : CongestionWindow) :
    Prop where
  credit : w.credit = 0
  /-- It is not larger than at first, than two packets or than the first threshold; and larger
  than at first only within the peer's window. -/
  size_le : w.size.toNat ≤ max c.initialWindow.toNat
    (min c.windowSize.toNat (max 2 c.initialThreshold.toNat))
  /-- After a loss at `v` it is not larger than half of `v`, or two packets, -/
  size_le_of_loss : ∀ ys zs v, xs = ys ++ .loss :: zs → c.firstWindow.after ys = .ok v →
    w.size.toNat ≤ max 2 (v.size.toNat / 2)
  /-- and grows from one packet to two only. -/
  grows_of_loss : .loss ∈ xs → ∀ x u, x.Under c.windowSize .integerDivision →
    w.onEvent x = .ok u → u.size.toNat ≤ w.size.toNat ∨ (w.size = 1 ∧ u.size = 2)

theorem Reliability.Valid.firstWindow_confined {c : Reliability} (h : c.Valid) :
    c.firstWindow.Confined c.windowSize
      (max c.initialWindow.toNat (max 2 c.initialThreshold.toNat)) where
  toWithin := h.firstWindow_within
  credit := rfl
  size_le := Nat.le_max_left _ _
  threshold_le := Nat.le_trans (Nat.le_max_right _ _) (Nat.le_max_right _ _)

/-- Under settings that pass their checks, a window whose growth is divided down stays where its
first acknowledgements led it, or a loss; and two packets at its threshold are enough to stay. -/
theorem freezes_of_every_run {c : Reliability} (h : c.Valid) {xs : List WindowEvent}
    (hx : ∀ x ∈ xs, x.Under c.windowSize .integerDivision) :
    (∃ w, c.firstWindow.after xs = .ok w ∧ c.Freezes xs w) ∧
      ∀ (w : CongestionWindow) (windowSize : UInt32) (n : Nat),
        max 2 w.threshold.toNat ≤ w.size.toNat →
        w.after (acks windowSize .integerDivision n) = .ok w := by
  refine ⟨?_, fun w windowSize n hw => after_acks_of_acked (acked_self hw) n⟩
  have hm := h.windowSize_le
  have hfirst := h.firstWindow_confined
  obtain ⟨w, hw, hpos⟩ := exists_after hfirst.pos xs
  have hconfined := hfirst.after (by omega) hm hx hw
  refine ⟨w, hw, hconfined.credit, ?_, ?_, ?_⟩
  · have hfits : c.initialWindow.toNat ≤ c.windowSize.toNat := h.firstWindow_within.le
    have hle := hconfined.le
    have hbound := hconfined.size_le
    omega
  · rintro ys zs v rfl hv
    have hys : ∀ x ∈ ys, x.Under c.windowSize .integerDivision :=
      fun x hmem => hx x (List.mem_append_left _ hmem)
    have hzs : ∀ x ∈ zs, x.Under c.windowSize .integerDivision :=
      fun x hmem => hx x (List.mem_append_right _ (List.mem_cons_of_mem _ hmem))
    have hloss := confined_onLoss (hfirst.after (by omega) hm hys hv).toWithin hm
    rw [after_append hv] at hw
    exact (hloss.after (Nat.le_max_left _ _) hm hzs hw).size_le
  · intro hl x u hunder he
    exact grows_to_two (threshold_le_size_of_loss hl hw) hpos hunder he

/-- Slow start up to four packets, two losses, and back to two packets. -/
def haltingRun : List WindowEvent :=
  acks 64 .integerDivision 5 ++ [.loss, .loss] ++ acks 64 .integerDivision 3

theorem freezes_of_haltingRun :
    let c : Reliability := { initialThreshold := 4, avoidance := .integerDivision }
    c.Valid ∧ (∀ x ∈ haltingRun, x.Under c.windowSize .integerDivision) ∧
      ∃ w, c.firstWindow.after haltingRun = .ok w ∧ c.Freezes haltingRun w ∧ w.size = 2 := by
  intro c
  have hvalid : c.Valid := by decide
  have hunder : ∀ x ∈ haltingRun, x.Under c.windowSize .integerDivision := by
    simp [haltingRun, acks, WindowEvent.Under, c]
  obtain ⟨⟨w, hw, hfreezes⟩, -⟩ := freezes_of_every_run hvalid hunder
  refine ⟨hvalid, hunder, w, hw, hfreezes, ?_⟩
  have hrun : c.firstWindow.after haltingRun = .ok ⟨2, 1, 0⟩ := by decide
  rw [hrun] at hw
  cases hw
  rfl

end ReliableDatagram
