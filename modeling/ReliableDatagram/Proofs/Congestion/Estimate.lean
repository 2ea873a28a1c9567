/-
Estimates after many samples.

A new estimate is a mean of the old one and of the sample, rounded down, so it
lies between the two and fits into the word of either.  After many samples it
lies between the least and the greatest number that went into it.

Under one and the same sample the distance to the sample loses an eighth with
each step.  Rounding down takes from above what it leaves from below, where an
estimate less than eight microseconds short of the sample stays where it is;
measured from seven microseconds short of the sample, both distances shrink by
one rule.

That rule is `shrink`, and it is a function on one number.  An iterated estimate is
an iterated distance, for all estimates above the sample at once and for all below,
and two hundred steps take the greatest word to zero.  This is the only computation
with fixed numbers; monotony carries it over to every smaller distance.  The bounds
of the timeout may change from sample to sample, for they have no part in the
estimate.

Main statement: where the estimate goes under one sample, and how fast.
-/
import Mathlib.Order.Iterate
import ReliableDatagram.Congestion.RoundTrip

namespace ReliableDatagram.RoundTrip

/-! ## One sample -/

theorem mean_lt (old sample : UInt32) : mean old.toNat sample.toNat < 0x100000000 :=
  Nat.lt_succ_of_le (mean_le (Nat.le_of_lt_succ old.toNat_lt) (Nat.le_of_lt_succ sample.toNat_lt))

theorem le_mean {old sample bound : Nat} (ho : bound ≤ old) (hs : bound ≤ sample) :
    bound ≤ mean old sample := by
  unfold mean
  omega

/-- What a sample makes of an estimate, as numbers that no word cuts off. -/
structure Exact (r : RoundTrip) (sample lower upper : Duration) : Prop where
  weighted_lt : 7 * r.smoothedMicros.toNat + sample.micros.toNat < 0x10000000000000000
  smoothed : (r.onSample sample lower upper).smoothedMicros.toNat =
    mean r.smoothedMicros.toNat sample.micros.toNat
  timeout : (r.onSample sample lower upper).timeoutMicros.toNat =
    min (max (4 * mean r.smoothedMicros.toNat sample.micros.toNat) lower.micros.toNat)
      upper.micros.toNat
  /-- Both fit into one word together. -/
  packed : ofBits (r.onSample sample lower upper).toBits = r.onSample sample lower upper

theorem exact (r : RoundTrip) (sample lower upper : Duration) :
    r.Exact sample lower upper := by
  have hold := r.smoothedMicros.toNat_lt
  have hsample := sample.micros.toNat_lt
  have hupper := upper.micros.toNat_lt
  refine ⟨by omega, ?_, ?_, ofBits_toBits _⟩
  · exact UInt32.toNat_ofNat_of_lt' (mean_lt _ _)
  · exact UInt32.toNat_ofNat_of_lt' (Nat.lt_of_le_of_lt (Nat.min_le_right _ _) hupper)

theorem toBits_ofBits (bits : UInt64) : (ofBits bits).toBits = bits := by
  have hbits := bits.toNat_lt
  apply UInt64.toNat_inj.mp
  simp only [toBits, ofBits, UInt64.toNat_ofNat', UInt32.toNat_ofNat']
  omega

/-! ## A run of samples -/

def afterSamples (r : RoundTrip) (lower upper : Duration) (samples : List Duration) : RoundTrip :=
  samples.foldl (fun r sample => r.onSample sample lower upper) r

section Runs

variable (r : RoundTrip) (lower upper : Duration) (samples : List Duration)

theorem exists_le_afterSamples :
    ∃ n ∈ r.smoothedMicros :: samples.map (·.micros),
      n.toNat ≤ (r.afterSamples lower upper samples).smoothedMicros.toNat := by
  induction samples generalizing r with
  | nil => exact ⟨_, List.mem_cons_self, Nat.le_refl _⟩
  | cons sample rest ih =>
      obtain ⟨n, hn, hle⟩ := ih (r.onSample sample lower upper)
      rcases List.mem_cons.mp hn with rfl | hn
      · rw [(r.exact sample lower upper).smoothed] at hle
        rcases Nat.le_total r.smoothedMicros.toNat sample.micros.toNat with ho | hs
        · exact ⟨_, List.mem_cons_self, Nat.le_trans (le_mean (Nat.le_refl _) ho) hle⟩
        · exact ⟨_, List.mem_cons_of_mem _ List.mem_cons_self,
            Nat.le_trans (le_mean hs (Nat.le_refl _)) hle⟩
      · exact ⟨n, List.mem_cons_of_mem _ (List.mem_cons_of_mem _ hn), hle⟩

theorem exists_afterSamples_le :
    ∃ n ∈ r.smoothedMicros :: samples.map (·.micros),
      (r.afterSamples lower upper samples).smoothedMicros.toNat ≤ n.toNat := by
  induction samples generalizing r with
  | nil => exact ⟨_, List.mem_cons_self, Nat.le_refl _⟩
  | cons sample rest ih =>
      obtain ⟨n, hn, hle⟩ := ih (r.onSample sample lower upper)
      rcases List.mem_cons.mp hn with rfl | hn
      · rw [(r.exact sample lower upper).smoothed] at hle
        rcases Nat.le_total r.smoothedMicros.toNat sample.micros.toNat with ho | hs
        · exact ⟨_, List.mem_cons_of_mem _ List.mem_cons_self,
            Nat.le_trans hle (mean_le ho (Nat.le_refl _))⟩
        · exact ⟨_, List.mem_cons_self, Nat.le_trans hle (mean_le (Nat.le_refl _) hs)⟩
      · exact ⟨n, List.mem_cons_of_mem _ (List.mem_cons_of_mem _ hn), hle⟩

/-- From the first sample on the timeout follows from the estimate. -/
theorem timeout_afterSamples (h : samples ≠ []) :
    (r.afterSamples lower upper samples).timeoutMicros.toNat =
      min (max (4 * (r.afterSamples lower upper samples).smoothedMicros.toNat)
        lower.micros.toNat) upper.micros.toNat := by
  obtain ⟨front, last, rfl⟩ : ∃ front last, samples = front ++ [last] :=
    ⟨_, _, (List.dropLast_concat_getLast h).symm⟩
  have hlast : r.afterSamples lower upper (front ++ [last]) =
      (r.afterSamples lower upper front).onSample last lower upper := List.foldl_append
  have hexact := (r.afterSamples lower upper front).exact last lower upper
  rw [hlast, hexact.timeout, hexact.smoothed]

end Runs

/-! ## One and the same sample -/

/-- The estimate after `n` samples that are alike, whatever bounds the timeout has. -/
def steadily (r : RoundTrip) (sample : Duration) (bounds : Nat → Duration × Duration) :
    (n : Nat) → RoundTrip
  | 0 => r
  | n + 1 => (r.steadily sample bounds n).onSample sample (bounds n).1 (bounds n).2

/-- What a step leaves of a distance: seven eighths, rounded down. -/
def shrink (distance : Nat) : Nat := 7 * distance / 8

theorem shrink_le (d : Nat) : shrink d ≤ d := by
  unfold shrink
  omega

theorem shrink_monotone : Monotone shrink := by
  intro d e h
  unfold shrink
  omega

/-- Distances between words are gone after two hundred steps. -/
theorem shrink_iterate_eq_zero {d n : Nat} (hd : d ≤ 0xffffffff) (hn : 200 ≤ n) :
    shrink^[n] d = 0 := by
  have hword : shrink^[200] 0xffffffff = 0 := by decide +kernel
  obtain ⟨k, rfl⟩ := Nat.exists_eq_add_of_le' hn
  rw [Function.iterate_add_apply]
  have hle : shrink^[200] d ≤ 0 := hword ▸ shrink_monotone.iterate 200 hd
  rw [Nat.le_zero.mp hle]
  exact Function.iterate_fixed rfl k

/-- From above, the distance to the sample shrinks. -/
theorem mean_of_above (s d : Nat) : mean (s + d) s = s + shrink d := by
  unfold mean shrink
  omega

/-- From below, so does the distance to seven less than the sample. -/
theorem mean_of_below {old s d : Nat} (h : old + 7 + d = s) :
    mean old s + 7 + shrink d = s := by
  unfold mean shrink
  omega

theorem mean_of_near {old s : Nat} (hlow : s ≤ old + 7) (hhigh : old ≤ s) : mean old s = old := by
  unfold mean
  omega

section Steady

variable (r : RoundTrip) (sample : Duration) (bounds : Nat → Duration × Duration)

theorem smoothed_steadily_succ (n : Nat) :
    (r.steadily sample bounds (n + 1)).smoothedMicros.toNat =
      mean (r.steadily sample bounds n).smoothedMicros.toNat sample.micros.toNat :=
  (exact _ _ _ _).smoothed

theorem steadily_of_above {d : Nat} (h : r.smoothedMicros.toNat = sample.micros.toNat + d)
    (n : Nat) : (r.steadily sample bounds n).smoothedMicros.toNat =
      sample.micros.toNat + shrink^[n] d := by
  induction n with
  | zero => exact h
  | succ n ih => rw [smoothed_steadily_succ, ih, mean_of_above, Function.iterate_succ_apply']

theorem steadily_of_below {d : Nat} (h : r.smoothedMicros.toNat + 7 + d = sample.micros.toNat)
    (n : Nat) : (r.steadily sample bounds n).smoothedMicros.toNat + 7 + shrink^[n] d =
      sample.micros.toNat := by
  induction n with
  | zero => exact h
  | succ n ih =>
      rw [smoothed_steadily_succ, Function.iterate_succ_apply']
      exact mean_of_below ih

theorem steadily_of_near (hlow : sample.micros.toNat ≤ r.smoothedMicros.toNat + 7)
    (hhigh : r.smoothedMicros.toNat ≤ sample.micros.toNat) (n : Nat) :
    (r.steadily sample bounds n).smoothedMicros.toNat = r.smoothedMicros.toNat := by
  induction n with
  | zero => rfl
  | succ n ih => rw [smoothed_steadily_succ, ih, mean_of_near hlow hhigh]

end Steady

/-! ## Main result -/

/-- How a sequence of estimates goes towards one sample. -/
structure Approaches (estimate : Nat → Nat) (sample : Nat) : Prop where
  /-- From above it falls to the sample. -/
  above : sample ≤ estimate 0 →
    (∀ n, sample ≤ estimate (n + 1) ∧ estimate (n + 1) ≤ estimate n) ∧
      ∀ n, 200 ≤ n → estimate n = sample
  /-- From below it rises, and ends seven short of the sample. -/
  below : estimate 0 + 8 ≤ sample →
    (∀ n, estimate n ≤ estimate (n + 1) ∧ estimate (n + 1) + 7 ≤ sample) ∧
      ∀ n, 200 ≤ n → estimate n + 7 = sample
  /-- Less than eight short of the sample it stays. -/
  near : sample ≤ estimate 0 + 7 → estimate 0 ≤ sample → ∀ n, estimate n = estimate 0

/-- Every estimate goes towards a sample that is made again and again, never past it, and is where
it ends within two hundred samples. -/
theorem smoothed_approaches (r : RoundTrip) (sample : Duration)
    (bounds : Nat → Duration × Duration) :
    Approaches (fun n => (r.steadily sample bounds n).smoothedMicros.toNat)
      sample.micros.toNat where
  above h := by
    obtain ⟨d, hd⟩ := Nat.exists_eq_add_of_le h
    have hrun := r.steadily_of_above sample bounds hd
    have hword : d ≤ 0xffffffff := by
      have hlt := r.smoothedMicros.toNat_lt
      simp only [steadily] at hd
      omega
    refine ⟨fun n => ?_, fun n hn => ?_⟩
    · simp only [hrun, Function.iterate_succ_apply']
      have hle := shrink_le (shrink^[n] d)
      omega
    · simp only [hrun, shrink_iterate_eq_zero hword hn, Nat.add_zero]
  below h := by
    obtain ⟨d, hd⟩ := Nat.exists_eq_add_of_le (Nat.le_trans (Nat.le_succ _) h)
    have hrun := r.steadily_of_below sample bounds hd.symm
    have hword : d ≤ 0xffffffff := by
      have hlt := sample.micros.toNat_lt
      omega
    refine ⟨fun n => ?_, fun n hn => ?_⟩
    · have hnow := hrun n
      have hnext := hrun (n + 1)
      rw [Function.iterate_succ_apply'] at hnext
      have hle := shrink_le (shrink^[n] d)
      omega
    · have hlast := hrun n
      rwa [shrink_iterate_eq_zero hword hn] at hlast
  near hlow hhigh := r.steadily_of_near sample bounds hlow hhigh

/-- Samples of ten milliseconds reach an estimate of a hundred, stop short of none at all, and
leave one that is five microseconds short of them. -/
theorem smoothed_approaches_tenMillis :
    let bounds : Nat → Duration × Duration := fun _ => (.ofMillis 100, .ofSecs 5)
    let ends (smoothed : UInt32) (n : Nat) :=
      ((⟨smoothed, 0⟩ : RoundTrip).steadily (.ofMillis 10) bounds n).smoothedMicros.toNat
    10000 ≤ ends 100000 0 ∧ ends 100000 200 = 10000 ∧
      ends 0 0 + 8 ≤ 10000 ∧ ends 0 200 = 9993 ∧
      ends 9995 0 ≤ 10000 ∧ ends 9995 200 = 9995 := by
  intro bounds ends
  have happroach (smoothed : UInt32) : Approaches (ends smoothed) 10000 :=
    smoothed_approaches ⟨smoothed, 0⟩ (.ofMillis 10) bounds
  refine ⟨by decide, ?_, by decide, ?_, by decide, ?_⟩
  · exact ((happroach 100000).above (by decide)).2 200 (Nat.le_refl _)
  · have hend := ((happroach 0).below (by decide)).2 200 (Nat.le_refl _)
    omega
  · exact (happroach 9995).near (by decide) (by decide) 200

end ReliableDatagram.RoundTrip
