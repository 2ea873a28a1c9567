/-
Scans, one after the other.

Between two scans of a side its packets only grow older.  So if one of the
scans comes more than the timeout after a packet was sent, that packet is sent
again by this scan or by an earlier one.  It makes no difference in which order
the two sides take turns.

A sweep is a list of scans, each with the side that scans and the time at which it
does.  The main lemma is an induction on that list.  If the scan that is overdue
for the packet comes first, it sends the packet.  If another one comes first, it
is of the other side and leaves the packet alone, or of the same side: then it
either sends the packet, which is all that was asked for, or finds that it is not
overdue and leaves the time at which it was sent as it was, so the rest of the
list still holds a scan that finds it overdue.

Ages are differences of times, and natural numbers.  A packet that was sent later
than the scan would count as not old at all, so the lemma asks for an exchange in
which nothing was sent later than now; each step keeps that.

Scans leave alone what was taken up, what was handed on and which numbers are
tracked.
-/
import ReliableDatagram.Proofs.Exchange.Delivery

namespace ReliableDatagram.Exchange

/-- Nothing was sent later than now. -/
def Timely (x : Exchange) : Prop := ∀ s, ∀ u ∈ (x.engine s).tracker.entries, u.sentAt ≤ x.now

/-- One side scans at a point in time. -/
def scanned (x : Exchange) (due : Instant × Side) : Exchange :=
  { x with now := due.1 }.post due.2 ((x.engine due.2).timedOut due.1).2
    ((x.engine due.2).timedOut due.1).1

def sweep (x : Exchange) (dues : List (Instant × Side)) : Exchange := dues.foldl scanned x

section Scans

variable {able : Side → PacketKind → Prop} {x x' : Exchange} {due : Instant × Side} {s : Side}

/-! ## The clock -/

theorem timely_start (config : Side → Reliability) : (start config).Timely :=
  fun _ _ hu => nomatch hu

theorem Timely.post (h : x.Timely) {l : LockedEngine} {packets : List Packet}
    (hl : ∀ u ∈ l.tracker.entries, u.sentAt ≤ x.now) : (x.post s l packets).Timely := by
  refine Side.forall_of s ?_ ?_
  · rwa [engine_post_self]
  · rw [engine_post_other]
    exact h s.other

theorem Timely.step (h : x.Timely) (hx : Step able x x') : x'.Timely := by
  cases hx with
  | @send t payload p l hlen hsend =>
      obtain ⟨-, hl⟩ := LockedEngine.eq_of_sendData hsend
      show (x.post t l [p]).Timely
      refine h.post ?_
      intro u hu
      rw [hl] at hu
      rcases List.mem_cons.mp hu with rfl | hu
      · exact Nat.le_refl _
      · exact h t u hu
  | scan t =>
      refine h.post ?_
      intro u hu
      rw [(LockedEngine.timedOut_frame (x.engine t) x.now).2.2.2] at hu
      obtain ⟨v, hv, rfl⟩ := List.mem_map.mp hu
      simp only [Unacked.renewed]
      split
      · exact Nat.le_refl _
      · exact h t v hv
  | elapse span => exact fun t u hu => Nat.le_add_right_of_le (h t u hu)
  | lose i => exact h
  | double i => exact h
  | @data i t p released l hi hk _ hrec =>
      show ((x.without i).post t.other l [.acknowledge p.seq.next]).Timely
      refine Timely.post (x := x.without i) h ?_
      intro u hu
      rw [LockedEngine.tracker_of_receive hrec] at hu
      exact h t.other u hu
  | @refuse i t p error l hi hk _ hrec =>
      refine Timely.post (x := x.without i) h ?_
      intro u hu
      rw [LockedEngine.tracker_of_receive hrec] at hu
      exact h t.other u hu
  | @ack i t p hi hk _ =>
      refine Timely.post (x := x.without i) h ?_
      intro u hu
      exact h t.other u (LockedEngine.mem_of_mem_handleAck hu)

/-! ## Scans as steps -/

theorem step_now {t : Instant} (h : x.now ≤ t) : Step able x { x with now := t } := by
  have he : Step able x { x with now := x.now + (t - x.now) } := .elapse _
  rwa [Nat.add_sub_cancel' h] at he

theorem steps_scanned (h : x.now ≤ due.1) : Steps able x (x.scanned due) :=
  .tail (.single (step_now h)) (.scan due.2)

theorem steps_sweep (dues : List (Instant × Side)) :
    ∀ {x : Exchange}, dues.Pairwise (fun a b => a.1 ≤ b.1) → (∀ due ∈ dues, x.now ≤ due.1) →
      Steps able x (x.sweep dues) := by
  induction dues with
  | nil => exact fun _ _ => .refl
  | cons due rest ih =>
      intro x hsorted hnow
      obtain ⟨hfirst, hrest⟩ := List.pairwise_cons.mp hsorted
      exact (steps_scanned (hnow due List.mem_cons_self)).trans (ih hrest hfirst)

theorem now_sweep_le {finish : Instant} (dues : List (Instant × Side)) :
    ∀ {x : Exchange}, x.now ≤ finish → (∀ due ∈ dues, due.1 ≤ finish) →
      (x.sweep dues).now ≤ finish := by
  induction dues with
  | nil => exact fun h _ => h
  | cons due rest ih =>
      intro x _ hall
      obtain ⟨hfirst, hrest⟩ := List.forall_mem_cons.mp hall
      exact ih (x := x.scanned due) hfirst hrest

/-! ## What scans leave alone -/

theorem tracks_timedOut {e : LockedEngine} {now : Instant} {k : Nat} :
    (e.timedOut now).2.Tracks k ↔ e.Tracks k := by
  simp only [LockedEngine.Tracks, (LockedEngine.timedOut_frame e now).2.2.2, List.mem_map]
  constructor
  · rintro ⟨-, ⟨u, hu, rfl⟩, hseq⟩
    exact ⟨u, hu, by rwa [Tracker.packet_renewed] at hseq⟩
  · rintro ⟨u, hu, hseq⟩
    exact ⟨_, ⟨u, hu, rfl⟩, by rwa [Tracker.packet_renewed]⟩

theorem tracks_scanned {k : Nat} : ((x.scanned due).engine s).Tracks k ↔
    (x.engine s).Tracks k := by
  rcases s.eq_or_eq_other due.2 with rfl | rfl
  · rw [scanned, engine_post_self, tracks_timedOut]
  · rw [scanned, engine_post_other]

theorem sweep_frame (dues : List (Instant × Side)) : ∀ (x : Exchange),
    (x.sweep dues).sent = x.sent ∧ (x.sweep dues).numbers = x.numbers ∧
      (x.sweep dues).got = x.got ∧
      ∀ s k, ((x.sweep dues).engine s).Tracks k ↔ (x.engine s).Tracks k := by
  induction dues with
  | nil => exact fun _ => ⟨rfl, rfl, rfl, fun _ _ => .rfl⟩
  | cons due rest ih =>
      intro x
      obtain ⟨hsent, hnumbers, hgot, htracks⟩ := ih (x.scanned due)
      exact ⟨hsent, hnumbers, hgot, fun s k => (htracks s k).trans tracks_scanned⟩

/-! ## What scans send -/

theorem mem_scanned (due : Instant × Side) {u : Unacked} (hu : u ∈ (x.engine s).tracker.entries) :
    (due.2 = s ∧ u.isOverdue due.1 (x.engine s).roundTrip.timeout = true ∧
        (s, u.packet) ∈ ((x.engine due.2).timedOut due.1).1.map fun p => (due.2, p)) ∨
      (u ∈ ((x.scanned due).engine s).tracker.entries ∧
        (due.2 = s → u.isOverdue due.1 (x.engine s).roundTrip.timeout = false)) := by
  rcases s.eq_or_eq_other due.2 with rfl | rfl
  · cases hover : u.isOverdue due.1 (x.engine due.2).roundTrip.timeout with
    | true =>
        refine .inl ⟨rfl, rfl, List.mem_map_of_mem ?_⟩
        exact (LockedEngine.mem_timedOut _ _ _).mpr ⟨u, hu, hover, rfl⟩
    | false =>
        refine .inr ⟨?_, fun _ => rfl⟩
        rw [scanned, engine_post_self, (LockedEngine.timedOut_frame _ _).2.2.2]
        refine List.mem_map.mpr ⟨u, hu, ?_⟩
        rw [Unacked.renewed, hover, if_neg Bool.false_ne_true]
  · refine .inr ⟨?_, fun h => absurd h due.2.ne_other⟩
    rwa [scanned, engine_post_other]

theorem roundTrip_scanned : ((x.scanned due).engine s).roundTrip = (x.engine s).roundTrip := by
  rcases s.eq_or_eq_other due.2 with rfl | rfl
  · rw [scanned, engine_post_self, (LockedEngine.timedOut_frame _ _).2.2.1]
  · rw [scanned, engine_post_other]

/-- Scans add to the wire.  Among what they add is every packet for which one of them comes
more than the timeout after it was sent. -/
theorem wire_sweep (dues : List (Instant × Side)) : ∀ (x : Exchange),
    ∃ again, (x.sweep dues).wire = x.wire ++ again ∧
      ∀ s, ∀ u ∈ (x.engine s).tracker.entries,
        (∃ t, (t, s) ∈ dues ∧ u.isOverdue t (x.engine s).roundTrip.timeout = true) →
          (s, u.packet) ∈ again := by
  induction dues with
  | nil =>
      refine fun x => ⟨[], (List.append_nil _).symm, ?_⟩
      rintro s u - ⟨t, ht, -⟩
      cases ht
  | cons due rest ih =>
      intro x
      obtain ⟨again, hwire, hagain⟩ := ih (x.scanned due)
      refine ⟨((x.engine due.2).timedOut due.1).1.map (fun p => (due.2, p)) ++ again, ?_, ?_⟩
      · rw [← List.append_assoc]
        exact hwire
      · rintro s u hu ⟨t, ht, hover⟩
        -- this scan sends the packet, or finds it not overdue and leaves it as it was
        rcases mem_scanned due hu with ⟨-, -, hsent⟩ | ⟨hu', hnot⟩
        · exact List.mem_append_left _ hsent
        · refine List.mem_append_right _ (hagain s u hu' ⟨t, ?_, ?_⟩)
          · rcases List.mem_cons.mp ht with rfl | ht
            · rw [hnot rfl] at hover
              cases hover
            · exact ht
          · rwa [roundTrip_scanned]

end Scans

end ReliableDatagram.Exchange
