/-
How a window grows, and how it comes down.

Below its threshold a window gains one packet with every acknowledgement.  From
there on, where fractions are counted, a window of `c` packets has to wait for
`c` acknowledgements until it gains one.  So it takes `1 + 2 + … + (c - 1)` of
them to come from one packet to `c`, and together with those counted since, each
acknowledgement adds one to that number.  As every number belongs to one size
and one count below it, the window after any number of acknowledgements can be
read off, through however many sizes it goes.  At the peer's window growth
ends, and always with an empty count.

So the closed form is not a formula for the size.  It is the equation between two
values of `climbed`, and that it has one solution is a lemma of its own.  What the
induction over the acknowledgements carries is `StandsAt`: the window has come to
the size and the count that belong to the number of steps, or it has stopped at the
peer's window before.  One step has three cases, a count that goes on, a full count
that buys a packet, and the end.

A window may start above the peer's window, since the peer's window can be anything;
then nothing moves it but losses.

Main statement: the window after any number of acknowledgements or of losses,
and that no run leads back into slow start.
-/
import Mathlib.Algebra.BigOperators.Intervals
import ReliableDatagram.Proofs.Congestion.Events

namespace ReliableDatagram.CongestionWindow

/-! ## Counting the way up -/

/-- How many acknowledgements take a window from one packet to `size` packets, and count `credit`
towards the next one. -/
def climbed (size credit : Nat) : Nat := size * (size - 1) / 2 + credit

theorem climbed_succ (size : Nat) : climbed (size + 1) 0 = climbed size size :=
  Nat.triangle_succ size

theorem climbed_lt_of_size_lt {size credit larger : Nat} (hc : credit < size)
    (hs : size < larger) : climbed size credit < climbed larger 0 := by
  induction larger, hs using Nat.le_induction with
  | base =>
      rw [climbed_succ]
      exact Nat.add_lt_add_left hc _
  | succ larger _ ih =>
      rw [climbed_succ]
      exact Nat.lt_of_lt_of_le ih (Nat.add_le_add_left (Nat.zero_le _) _)

/-- One number stands for one size and one count. -/
theorem climbed_inj {size credit size' credit' : Nat} (hc : credit < size)
    (hc' : credit' < size') (h : climbed size credit = climbed size' credit') :
    size = size' ∧ credit = credit' := by
  have hsize : size = size' := by
    rcases Nat.lt_trichotomy size size' with hlt | heq | hlt
    · have := climbed_lt_of_size_lt hc hlt
      simp only [climbed] at *
      omega
    · exact heq
    · have := climbed_lt_of_size_lt hc' hlt
      simp only [climbed] at *
      omega
  subst hsize
  exact ⟨rfl, Nat.add_left_cancel h⟩

/-! ## Acknowledgements in a row -/

def acks (windowSize : UInt32) (mode : Avoidance) (n : Nat) : List WindowEvent :=
  List.replicate n (.ack windowSize mode)

/-- A window has come to `size` packets and `credit` acknowledgements, or to the peer's window
before that. -/
structure StandsAt (w : CongestionWindow) (windowSize : UInt32) (size credit : Nat) : Prop where
  below : size < windowSize.toNat → w.size.toNat = size ∧ w.credit.toNat = credit
  reached : windowSize.toNat ≤ size → w.size = windowSize ∧ w.credit = 0

section Acks

variable {w v : CongestionWindow} {windowSize : UInt32} {mode : Avoidance} {size credit : Nat}

theorem after_acks_succ (h : w.Acked windowSize mode v) (n : Nat) :
    w.after (acks windowSize mode (n + 1)) = v.after (acks windowSize mode n) :=
  after_cons (onAck_of_acked h)

theorem after_acks_of_acked (h : w.Acked windowSize mode w) (n : Nat) :
    w.after (acks windowSize mode n) = .ok w := by
  induction n with
  | zero => rfl
  | succ n ih => rw [after_acks_succ h, ih]

/-- In slow start every acknowledgement counts for one packet. -/
theorem after_acks_of_slowStart (n : Nat) (h : w.size.toNat ≤ windowSize.toNat)
    (hn : w.size.toNat + n ≤ w.threshold.toNat) (mode : Avoidance) :
    ∃ v, w.after (acks windowSize mode n) = .ok v ∧
      v.size.toNat = min windowSize.toNat (w.size.toNat + n) ∧ v.threshold = w.threshold ∧
      v.credit = w.credit := by
  induction n generalizing w with
  | zero => exact ⟨w, rfl, (Nat.min_eq_right h).symm, rfl, rfl⟩
  | succ n ih =>
      by_cases hle : windowSize.toNat ≤ w.size.toNat
      · exact ⟨w, after_acks_of_acked (.atWindow hle) _, by omega, rfl, rfl⟩
      · have hlt := Nat.lt_of_not_le hle
        have hsize : w.enlarged.size.toNat = w.size.toNat + 1 := toNat_size_succ hlt
        have hthreshold : w.enlarged.threshold = w.threshold := rfl
        obtain ⟨v, hv, hsv, ht, hc⟩ :=
          ih (w := w.enlarged) (by omega) (by rw [hsize, hthreshold]; omega)
        refine ⟨v, ?_, by rw [hsv, hsize]; omega, ht, hc⟩
        rw [after_acks_succ (.slowStart hlt (by omega)), hv]

/-! ## Counting fractions -/

theorem credited_of_lt (h : w.credit.toNat + 1 < w.size.toNat) :
    w.credited.size = w.size ∧ w.credited.credit.toNat = w.credit.toNat + 1 := by
  have hcount := toNat_credit_succ (Nat.lt_of_succ_lt h)
  have hfull : ¬ w.size ≤ w.credit + 1 := by
    rw [UInt32.le_iff_toNat_le]
    omega
  rw [credited, if_neg hfull]
  exact ⟨rfl, hcount⟩

theorem credited_of_eq (h : w.credit.toNat + 1 = w.size.toNat) :
    w.credited.size = w.size + 1 ∧ w.credited.credit = 0 := by
  have hcount := toNat_credit_succ (w := w) (by omega)
  have hfull : w.credit + 1 = w.size := UInt32.toNat_inj.mp (hcount.trans h)
  rw [credited, if_pos (by rw [hfull]; exact UInt32.le_refl _)]
  exact ⟨rfl, by rw [hfull, UInt32.sub_self]⟩

theorem StandsAt.ack (h : w.StandsAt windowSize size credit) (hc : credit < size)
    (ht : w.threshold.toNat ≤ w.size.toNat) :
    ∃ v size' credit', w.Acked windowSize .fractional v ∧ credit' < size' ∧
      climbed size' credit' = climbed size credit + 1 ∧ v.StandsAt windowSize size' credit' := by
  -- the pair that follows, whether or not the window can go on so far
  obtain ⟨size', credit', hc', hnext, hpair⟩ : ∃ size' credit', credit' < size' ∧
      climbed size' credit' = climbed size credit + 1 ∧
      (credit + 1 < size ∧ size' = size ∧ credit' = credit + 1 ∨
        credit + 1 = size ∧ size' = size + 1 ∧ credit' = 0) := by
    by_cases hfull : credit + 1 < size
    · exact ⟨size, credit + 1, hfull, rfl, .inl ⟨hfull, rfl, rfl⟩⟩
    · have heq : credit + 1 = size := by omega
      refine ⟨size + 1, 0, Nat.succ_pos _, ?_, .inr ⟨heq, rfl, rfl⟩⟩
      rw [climbed_succ, ← heq]
      rfl
  by_cases hlt : size < windowSize.toNat
  · obtain ⟨hsize, hcredit⟩ := h.below hlt
    refine ⟨w.credited, size', credit', .fractional (by omega) ht rfl, hc', hnext, ?_⟩
    rcases hpair with ⟨hfull, rfl, rfl⟩ | ⟨hfull, rfl, rfl⟩
    · obtain ⟨hs, hk⟩ := credited_of_lt (w := w) (by omega)
      exact ⟨fun _ => ⟨by rw [hs, hsize], by rw [hk, hcredit]⟩, fun hle => by omega⟩
    · obtain ⟨hs, hk⟩ := credited_of_eq (w := w) (by omega)
      have hsucc : w.credited.size.toNat = size + 1 := by
        rw [hs, toNat_size_succ (show w.size.toNat < windowSize.toNat by omega), hsize]
      refine ⟨fun _ => ⟨hsucc, by rw [hk]; rfl⟩, fun hle => ⟨?_, hk⟩⟩
      exact UInt32.toNat_inj.mp (by omega)
  · have hle := Nat.le_of_not_lt hlt
    have hreached := h.reached hle
    refine ⟨w, size', credit', .atWindow (by rw [hreached.1]), hc', hnext, ?_⟩
    exact ⟨fun hlt' => by omega, fun _ => hreached⟩

/-- So many acknowledgements are so many steps up. -/
theorem StandsAt.acks (h : w.StandsAt windowSize size credit) (hc : credit < size)
    (ht : w.threshold.toNat ≤ w.size.toNat) (n : Nat) :
    ∃ v size' credit', w.after (acks windowSize .fractional n) = .ok v ∧ credit' < size' ∧
      climbed size' credit' = climbed size credit + n ∧ v.threshold = w.threshold ∧
      v.StandsAt windowSize size' credit' := by
  induction n generalizing w size credit with
  | zero => exact ⟨w, size, credit, rfl, hc, rfl, rfl, h⟩
  | succ n ih =>
      obtain ⟨u, size₁, credit₁, hu, hc₁, hclimbed, hstands⟩ := h.ack hc ht
      have ht₁ : u.threshold.toNat ≤ u.size.toNat := by
        rw [hu.threshold_eq]
        exact Nat.le_trans ht hu.size_le
      obtain ⟨v, size', credit', hv, hc', hclimbed', hthreshold, hstands'⟩ := ih hstands hc₁ ht₁
      refine ⟨v, size', credit', ?_, hc', by omega, hthreshold.trans hu.threshold_eq, hstands'⟩
      rw [after_acks_succ hu, hv]

end Acks

/-! ## Main result -/

/-- The window after `n` acknowledgements that are counted as fractions. -/
structure Climbs (w : CongestionWindow) (windowSize : UInt32) (n : Nat) (v : CongestionWindow) :
    Prop where
  threshold : v.threshold = w.threshold
  /-- One size and one count below it are so many steps up, -/
  unique : ∃! p : Nat × Nat,
    p.2 < p.1 ∧ climbed p.1 p.2 = climbed w.size.toNat w.credit.toNat + n
  /-- and there the window stands, -/
  stands : ∀ size credit, credit < size →
    climbed size credit = climbed w.size.toNat w.credit.toNat + n →
    v.StandsAt windowSize size credit
  /-- at the peer's window for good. -/
  stays : v.size = windowSize → ∀ m, v.after (acks windowSize .fractional m) = .ok v

theorem climbs_of_acks {w : CongestionWindow} {windowSize : UInt32}
    (hc : w.credit.toNat < w.size.toNat) (ht : w.threshold.toNat ≤ w.size.toNat)
    (hlt : w.size.toNat < windowSize.toNat) (n : Nat) :
    ∃ v, w.after (acks windowSize .fractional n) = .ok v ∧ w.Climbs windowSize n v := by
  have hstart : w.StandsAt windowSize w.size.toNat w.credit.toNat :=
    ⟨fun _ => ⟨rfl, rfl⟩, fun hle => absurd hlt (Nat.not_lt.mpr hle)⟩
  obtain ⟨v, size, credit, hv, hc', hclimbed, hthreshold, hstands⟩ := hstart.acks hc ht n
  refine ⟨v, hv, hthreshold, ⟨(size, credit), ⟨hc', hclimbed⟩, ?_⟩, ?_, ?_⟩
  · rintro ⟨size', credit'⟩ ⟨hother, hsame⟩
    obtain ⟨rfl, rfl⟩ := climbed_inj hother hc' (hsame.trans hclimbed.symm)
    rfl
  · intro size' credit' hother hsame
    obtain ⟨rfl, rfl⟩ := climbed_inj hother hc' (hsame.trans hclimbed.symm)
    exact hstands
  · intro hreached m
    exact after_acks_of_acked (.atWindow (by rw [hreached])) m

/-- Where acknowledgements and losses lead a window, with a peer's window of `windowSize`. -/
structure Trajectory (windowSize : UInt32) : Prop where
  /-- At or above the threshold a window climbs by fractions. -/
  fractional : ∀ (w : CongestionWindow) (n : Nat), w.credit.toNat < w.size.toNat →
    w.threshold.toNat ≤ w.size.toNat → w.size.toNat < windowSize.toNat →
    ∃ v, w.after (acks windowSize .fractional n) = .ok v ∧ w.Climbs windowSize n v
  /-- Up to the threshold it gains one packet with each acknowledgement, whatever the mode. -/
  slowStart : ∀ (w : CongestionWindow) (mode : Avoidance) (n : Nat),
    w.size.toNat ≤ windowSize.toNat → w.size.toNat + n ≤ w.threshold.toNat →
    ∃ v, w.after (acks windowSize mode n) = .ok v ∧
      v.size.toNat = min windowSize.toNat (w.size.toNat + n) ∧ v.threshold = w.threshold ∧
      v.credit = w.credit
  /-- A window beyond the peer's one has nothing to gain. -/
  beyond : ∀ (w : CongestionWindow) (mode : Avoidance) (n : Nat),
    windowSize.toNat ≤ w.size.toNat → w.after (acks windowSize mode n) = .ok w
  /-- From a new window with packets every run leads to a window. -/
  runs : ∀ (size threshold : UInt32) (xs : List WindowEvent), 0 < size.toNat →
    ∃ w, (new size threshold).after xs = .ok w
  /-- Once the threshold is reached or a loss has happened, no run leads into slow start. -/
  leaves : ∀ (size threshold : UInt32) (xs ys : List WindowEvent) (w v : CongestionWindow),
    (new size threshold).after xs = .ok w → w.after ys = .ok v →
    w.threshold.toNat ≤ w.size.toNat ∨ .loss ∈ xs → v.inSlowStart = false
  /-- Losses in a row halve the window each, down to one packet. -/
  losses : ∀ (w : CongestionWindow) (k : Nat), 0 < k ∨ 0 < w.size.toNat →
    ∃ v, w.after (List.replicate k .loss) = .ok v ∧
      v.size.toNat = max 1 (w.size.toNat / 2 ^ k)

theorem trajectory_of_every_run (windowSize : UInt32) : Trajectory windowSize where
  fractional _ n hc ht hlt := climbs_of_acks hc ht hlt n
  slowStart _ mode n hle hn := after_acks_of_slowStart n hle hn mode
  beyond _ _ n hle := after_acks_of_acked (.atWindow hle) n
  runs _ _ xs hpos := by
    obtain ⟨w, hw, -⟩ := exists_after (w := new _ _) hpos xs
    exact ⟨w, hw⟩
  leaves _ _ xs ys w v hxs hys hleft := by
    refine inSlowStart_eq_false_iff.mpr (threshold_le_size_after ?_ hys)
    rcases hleft with hreached | hl
    · exact hreached
    · exact threshold_le_size_of_loss hl hxs
  losses _ k h := after_losses k h

/-- Ten packets at their threshold: eleven after ten acknowledgements, twelve after eleven more. -/
theorem trajectory_of_tenPackets :
    (new 10 10).credit.toNat < (new 10 10).size.toNat ∧
      (new 10 10).threshold.toNat ≤ (new 10 10).size.toNat ∧
      (new 10 10).size.toNat < (64 : UInt32).toNat ∧
      ∃ v, (new 10 10).after (acks 64 .fractional 21) = .ok v ∧ (new 10 10).Climbs 64 21 v ∧
        v.size = 12 ∧ v.credit = 0 := by
  have hc : (new 10 10).credit.toNat < (new 10 10).size.toNat := by decide
  have ht : (new 10 10).threshold.toNat ≤ (new 10 10).size.toNat := by decide
  have hlt : (new 10 10).size.toNat < (64 : UInt32).toNat := by decide
  obtain ⟨v, hv, hclimbs⟩ := (trajectory_of_every_run 64).fractional (new 10 10) 21 hc ht hlt
  have htwelve := (hclimbs.stands 12 0 (by decide) (by decide)).below (by decide)
  exact ⟨hc, ht, hlt, v, hv, hclimbs, UInt32.toNat_inj.mp htwelve.1,
    UInt32.toNat_inj.mp htwelve.2⟩

-- The peer's window of twelve packets is reached with the last of them.
example : (new 10 10).after (acks 12 .fractional 20) = .ok ⟨11, 10, 10⟩ ∧
    (new 10 10).after (acks 12 .fractional 30) = .ok ⟨12, 10, 0⟩ := by
  decide

end ReliableDatagram.CongestionWindow
