/-
The clock of a network of two end points.

While time goes by, each side scans whenever its timer ticks.  A timer ticks at
least once in every stretch of the length of the side's interval.  So a
span longer than timeout and interval together holds a scan that comes more
than the timeout after the start of the span.

The ticks of both sides are put into one list in the order of time, and the
network carries out one scan after the other.  On the side of the exchange this is
a sweep, so a span of time is as many steps as there are scans, each with the time
that has gone by before it.  Between the last tick and the end of the span more
time goes by without a scan.

When a timer ticks, and how often, makes no difference to any of this; that the
ticks are within the span and regular is used at two places of one proof.  The
interval is not zero, since settings with an interval of zero fail their checks.

A span that is no longer than the timeout and the interval together promises
nothing: the last scan may come just before a packet gets overdue, and the next
tick after the end.
-/
import Mathlib.Data.List.Basic
import ReliableDatagram.Proofs.Exchange.Scans
import ReliableDatagram.Proofs.Network.Stands

namespace ReliableDatagram

/-! ## Due scans -/

theorem Network.mem_dueScans {net : Network} {finish : Instant} {due : Instant × Nat} :
    due ∈ net.dueScans finish ↔ ∃ node, net.nodes[due.2]? = some node ∧
      due.1 ∈ net.timer.ticks due.2 node.endPoint.config.scanInterval.nanos net.now finish := by
  rw [dueScans, (List.mergeSort_perm _ _).mem_iff, List.mem_flatten]
  simp only [List.mem_mapIdx]
  constructor
  · rintro ⟨-, ⟨i, hi, rfl⟩, hd⟩
    obtain ⟨t, ht, rfl⟩ := List.mem_map.mp hd
    exact ⟨net.nodes[i], List.getElem?_eq_getElem hi, ht⟩
  · rintro ⟨node, hn, ht⟩
    obtain ⟨hi, rfl⟩ := List.getElem?_eq_some_iff.mp hn
    exact ⟨_, ⟨due.2, hi, rfl⟩, List.mem_map.mpr ⟨due.1, ht, rfl⟩⟩

theorem Network.pairwise_dueScans (net : Network) (finish : Instant) :
    (net.dueScans finish).Pairwise fun a b => a.1 ≤ b.1 := by
  refine (List.pairwise_mergeSort ?_ ?_ _).imp of_decide_eq_true
  · intro a b c
    simp only [decide_eq_true_eq]
    exact Nat.le_trans
  · intro a b
    simp only [Bool.or_eq_true, decide_eq_true_eq]
    exact Nat.le_total _ _

namespace Side

def ofIndex : Nat → Side
  | 0 => left
  | _ => right

theorem ofIndex_index (s : Side) : ofIndex s.index = s := by
  cases s with
  | left => rfl
  | right => rfl

theorem index_ofIndex {i : Nat} (h : i < 2) : (ofIndex i).index = i := by
  match i, h with
  | 0, _ | 1, _ => rfl

end Side

namespace Pair

section Clock

variable {S : Pair} {net : Network} {x : Exchange}

theorem scanInterval_pos (S : Pair) (s : Side) : 0 < (S.config s).scanInterval.nanos :=
  (S.valid s).checks.1

/-! ## Scans -/

theorem Stands.scan (h : S.Stands net x) (s : Side) :
    ∃ net' events, net.act s.index .scan = (.done, net', events) ∧
      S.Stands net' (x.post s ((x.engine s).timedOut x.now).2 ((x.engine s).timedOut x.now).1) ∧
      ∀ t, events.filterMap (Event.payload? t) = [] := by
  obtain ⟨node, hn, hr⟩ := h.nodes s
  obtain ⟨e, heq, hk⟩ := hr.keeps.scan net.now
  rw [h.now] at heq hk
  obtain ⟨net', hact, hs⟩ := h.act .scan hn (by rw [h.now]; exact heq) hk fun effect he => by
    obtain ⟨p, -, rfl⟩ := List.mem_map.mp he
    rfl
  have hpackets : (((x.engine s).timedOut x.now).1.map
      (Effect.transmit (S.address s.other))).filterMap Effect.packet? =
      ((x.engine s).timedOut x.now).1 := by
    rw [List.filterMap_map]
    exact List.filterMap_some
  rw [hpackets] at hs
  refine ⟨net', _, hact, hs, ?_⟩
  intro t
  rw [List.map_map, List.filterMap_map]
  exact List.filterMap_eq_nil_iff.mpr fun _ _ => rfl

theorem Stands.scanAt (h : S.Stands net x) (due : Instant × Side) :
    ∃ net' events, net.scanAt (due.1, due.2.index) = (net', events) ∧
      S.Stands net' (x.scanned due) ∧ ∀ t, events.filterMap (Event.payload? t) = [] := by
  have hnow : S.Stands { net with now := due.1 } { x with now := due.1 } :=
    ⟨h.timer, h.length, h.nodes, h.wire, rfl⟩
  obtain ⟨net', events, hact, hs, he⟩ := hnow.scan due.2
  obtain ⟨node, hn, hr⟩ := h.nodes due.2
  refine ⟨net', events, ?_, hs, he⟩
  simp only [Network.scanAt, hn, hr.scanning, if_true, hact]

theorem Stands.scanAll (dues : List (Instant × Side)) : ∀ {net : Network} {x : Exchange},
    S.Stands net x → ∃ net' events,
      net.scanAll (dues.map fun due => (due.1, due.2.index)) = (net', events) ∧
        S.Stands net' (x.sweep dues) ∧ ∀ t, events.filterMap (Event.payload? t) = [] := by
  induction dues with
  | nil => exact fun h => ⟨_, [], rfl, h, fun _ => rfl⟩
  | cons due rest ih =>
      intro net x h
      obtain ⟨net₁, first, hat, hs, hfirst⟩ := h.scanAt due
      obtain ⟨net', more, hall, hs', hmore⟩ := ih hs
      refine ⟨net', first ++ more, ?_, hs', ?_⟩
      · simp only [List.map_cons, Network.scanAll, hat, hall]
      · intro t
        rw [List.filterMap_append, hfirst, hmore, List.append_nil]

/-! ## Which scans fall due -/

theorem Stands.dueScans (h : S.Stands net x) (finish : Instant) :
    ∃ dues : List (Instant × Side),
      net.dueScans finish = dues.map (fun due => (due.1, due.2.index)) ∧
        dues.Pairwise (fun a b => a.1 ≤ b.1) ∧ ∀ due, due ∈ dues ↔
          due.1 ∈ S.timer.ticks due.2.index (S.config due.2).scanInterval.nanos x.now finish := by
  refine ⟨(net.dueScans finish).map fun due => (due.1, .ofIndex due.2), ?_, ?_, ?_⟩
  · rw [List.map_map, List.map_congr_left (g := id), List.map_id]
    intro due hd
    obtain ⟨node, hn, -⟩ := Network.mem_dueScans.mp hd
    have hlt := (List.getElem?_eq_some_iff.mp hn).1
    rw [h.length] at hlt
    exact Prod.ext rfl (Side.index_ofIndex hlt)
  · rw [List.pairwise_map]
    exact Network.pairwise_dueScans net finish
  · intro due
    have hconfig : ∀ s node, net.nodes[s.index]? = some node →
        node.endPoint.config = S.config s := by
      intro s node hn
      obtain ⟨node', hn', hr⟩ := h.nodes s
      rw [hn] at hn'
      cases hn'
      exact hr.keeps.config_eq
    rw [List.mem_map]
    constructor
    · rintro ⟨⟨t, i⟩, hd, rfl⟩
      obtain ⟨node, hn, ht⟩ := Network.mem_dueScans.mp hd
      have hlt := (List.getElem?_eq_some_iff.mp hn).1
      rw [h.length] at hlt
      rw [← Side.index_ofIndex hlt] at hn
      rw [hconfig _ _ hn, h.now, h.timer] at ht
      show t ∈ S.timer.ticks (Side.ofIndex i).index _ _ _
      rwa [Side.index_ofIndex hlt]
    · intro ht
      obtain ⟨node, hn, hr⟩ := h.nodes due.2
      refine ⟨(due.1, due.2.index), Network.mem_dueScans.mpr ⟨node, hn, ?_⟩, ?_⟩
      · rwa [hconfig _ _ hn, h.now, h.timer]
      · rw [Side.ofIndex_index]

/-! ## Time that goes by -/

/-- What a span of time amounts to.  Nothing is handed on; and if the span is longer than the
timeout and the interval of a side, every packet that the side tracks is sent again. -/
theorem Stands.advance (h : S.Stands net x) (able : Side → PacketKind → Prop) (span : Duration) :
    ∃ x' net' events, net.advance span = (net', events) ∧ S.Stands net' x' ∧
      Exchange.Steps able x x' ∧ (∀ t, events.filterMap (Event.payload? t) = []) ∧
      x'.sent = x.sent ∧ x'.numbers = x.numbers ∧ x'.got = x.got ∧
      (∀ s k, (x'.engine s).Tracks k ↔ (x.engine s).Tracks k) ∧
      ∃ again, x'.wire = x.wire ++ again ∧ (x.Timely → ∀ s,
        (x.engine s).roundTrip.timeout.nanos + (S.config s).scanInterval.nanos < span.nanos →
          ∀ u ∈ (x.engine s).tracker.entries, (s, u.packet) ∈ again) := by
  obtain ⟨dues, hdues, hsorted, hmem⟩ := h.dueScans (x.now + span.nanos)
  obtain ⟨net', events, hall, hs, he⟩ := h.scanAll dues
  obtain ⟨again, hwire, hagain⟩ := Exchange.wire_sweep dues x
  obtain ⟨hsent, hnumbers, hgot, htracks⟩ := Exchange.sweep_frame dues x
  have hsteps : Exchange.Steps able x (x.sweep dues) :=
    Exchange.steps_sweep dues hsorted fun due hd =>
      (S.timer.within ((hmem due).mp hd)).1
  have hnow : (x.sweep dues).now ≤ x.now + span.nanos :=
    Exchange.now_sweep_le dues (Nat.le_add_right _ _) fun due hd =>
      (S.timer.within ((hmem due).mp hd)).2
  refine ⟨{ x.sweep dues with now := x.now + span.nanos },
    { net' with now := x.now + span.nanos }, events, ?_,
    ⟨hs.timer, hs.length, hs.nodes, hs.wire, rfl⟩, ?_, he, hsent, hnumbers, hgot, htracks, again,
    hwire, ?_⟩
  · simp only [Network.advance, h.now, hdues, hall]
  · exact hsteps.tail (Exchange.step_now hnow)
  · intro ht s hspan u hu
    -- the timeout passes first, and within one interval more the timer ticks
    have hfits : x.now + (x.engine s).roundTrip.timeout.nanos + (S.config s).scanInterval.nanos ≤
        x.now + span.nanos := by
      rw [Nat.add_assoc]
      exact Nat.add_le_add_left (Nat.le_of_lt hspan) _
    obtain ⟨t, hmt, hlt, -⟩ :=
      S.timer.regular s.index (S.scanInterval_pos s) (Nat.le_add_right _ _) hfits
    refine hagain s u hu ⟨t, (hmem (t, s)).mpr hmt, ?_⟩
    rw [Unacked.isOverdue, decide_eq_true_iff]
    refine Nat.lt_sub_of_add_lt (Nat.lt_of_le_of_lt ?_ hlt)
    rw [Nat.add_comm]
    exact Nat.add_le_add_right (ht s u hu) _

end Clock

end Pair

end ReliableDatagram
