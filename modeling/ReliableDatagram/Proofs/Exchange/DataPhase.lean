/-
The data phase of an exchange.

All that holds of an exchange as long as nobody sets a connection up: both
directions are in order and complete, nothing was sent later than now, and a
side that cannot work off a kind of packet shows it.  A side that cannot work off
DATA hands on nothing at all, and one that cannot work off acknowledgements
tracks all that it ever sent.

`Sound` collects the invariants, so that a step lemma and a run lemma have to be
stated once.  The parts lean on each other: completeness needs order, and the two
halves of `Limited` need that what arrives is in order.  A run is bounded if
neither side has taken up 2³¹ payloads.  Steps only add to the payloads, so a run
that ends within the bound was within it all the time, and the bound is asked for
at the end only.

The second part is about what is still to come.  A receiver awaits a list of
positions if it is the list, in rising order, of all those that it has not handed
on.  Taking the first of them makes the receiver hand on that position and leaves
it waiting for the rest.  That is what makes progress possible however full its
buffer is: the packet that it expects is never refused for lack of room.
-/
import ReliableDatagram.Proofs.Exchange.Scans

namespace ReliableDatagram.Exchange

/-- What a side is not able to do does not happen. -/
structure Limited (able : Side → PacketKind → Prop) (x : Exchange) : Prop where
  got : ∀ s, ¬ able s .data → x.got s = []
  tracked : ∀ s, ¬ able s .ack → ∀ k < (x.sent s).length, (x.engine s).Tracks k

/-- What holds of an exchange all through the data phase. -/
structure Sound (able : Side → PacketKind → Prop) (x : Exchange) : Prop where
  usual : x.Usual
  inOrder : ∀ s, x.InOrder s
  complete : x.Complete
  timely : x.Timely
  limited : x.Limited able

section DataPhase

variable {able : Side → PacketKind → Prop} {x x' : Exchange} {s : Side}

theorem limited_start (config : Side → Reliability) : (start config).Limited able :=
  ⟨fun _ _ => rfl, fun _ _ k hk => absurd hk (Nat.not_lt_zero k)⟩

theorem sound_start {config : Side → Reliability} (hv : ∀ s, (config s).Valid)
    (hf : ∀ s, (config s).initialReceive = .first) : (start config).Sound able :=
  ⟨usual_start, fun s => inOrder_start (hv s) (hf s.other), complete_start, timely_start config,
    limited_start config⟩

theorem Limited.post_handed (h : x.Limited able) {l : LockedEngine} {packets released : List Packet}
    (hg : ¬ able s .data → released = [])
    (ht : ¬ able s .ack → ∀ k, (x.engine s).Tracks k → l.Tracks k) :
    ((x.post s l packets).handed s released).Limited able := by
  refine ⟨Side.forall_of s ?_ ?_, Side.forall_of s ?_ ?_⟩
  · intro hable
    rw [got_handed_self, got_post, h.got s hable, hg hable]
    rfl
  · rw [got_handed_other]
    exact h.got s.other
  · intro hable k hk
    rw [engine_handed, engine_post_self]
    exact ht hable k (h.tracked s hable k hk)
  · rw [engine_handed, engine_post_other]
    exact h.tracked s.other

theorem Limited.without (h : x.Limited able) (i : Nat) : (x.without i).Limited able :=
  ⟨h.got, h.tracked⟩

theorem Limited.step (h : x.Limited able) (ho : ∀ s, x.InOrder s) (hx : Step able x x') :
    x'.Limited able := by
  cases hx with
  | @send t payload p l hlen hsend =>
      have hc := LockedEngine.carries_of_sendData (ho t).sends hlen hsend
      obtain ⟨-, hl⟩ := LockedEngine.eq_of_sendData hsend
      refine ⟨h.got, Side.forall_of t ?_ ?_⟩
      · intro hable k hk
        rw [sent_taken_self, sent_post, List.length_append, List.length_singleton] at hk
        rw [engine_taken, engine_post_self, hl]
        rcases Nat.lt_succ_iff_lt_or_eq.mp hk with hlt | rfl
        · obtain ⟨u, hu, hseq⟩ := h.tracked t hable k hlt
          exact ⟨u, List.mem_cons_of_mem _ hu, hseq⟩
        · exact ⟨_, List.mem_cons_self, hc.seq⟩
      · rw [sent_taken_other, engine_taken, engine_post_other]
        exact h.tracked t.other
  | scan t =>
      rw [← handed_nil (x.post t _ _) t]
      exact h.post_handed (fun _ => rfl) fun _ k hk => tracks_timedOut.mpr hk
  | elapse span => exact ⟨h.got, h.tracked⟩
  | lose i => exact h.without i
  | double i => exact ⟨h.got, h.tracked⟩
  | @data i t p released l hi hk hable hrec =>
      refine (h.without i).post_handed (fun hnot => absurd hable hnot) ?_
      intro _ k hk
      rw [LockedEngine.Tracks, LockedEngine.tracker_of_receive hrec]
      exact hk
  | @refuse i t p error l hi hk hable hrec =>
      rw [← handed_nil ((x.without i).post t.other _ _) t.other]
      refine (h.without i).post_handed (fun hnot => absurd hable hnot) ?_
      intro _ k hk
      rw [LockedEngine.Tracks, LockedEngine.tracker_of_receive hrec]
      exact hk
  | @ack i t p hi hk hable =>
      rw [← handed_nil ((x.without i).post t.other _ _) t.other]
      -- only a side that cannot work off acknowledgements has to keep what it tracks
      exact (h.without i).post_handed (fun _ => rfl) fun hnot => absurd hable hnot

theorem Sound.step (h : x.Sound able) (hn : x.Bounded) (hx : Step able x x') : x'.Sound able :=
  ⟨h.usual.step hx, fun s => (h.inOrder s).step (hn s) hx, h.complete.step h.inOrder hn hx,
    h.timely.step hx, h.limited.step h.inOrder hx⟩

theorem Bounded.of_step (hn : x'.Bounded) (hx : Step able x x') : x.Bounded :=
  fun s => Nat.lt_of_le_of_lt (hx.sent_le s) (hn s)

theorem Sound.steps (h : x.Sound able) (hx : Steps able x x') : x'.Bounded → x'.Sound able := by
  induction hx with
  | refl => exact fun _ => h
  | tail _ hx ih =>
      intro hn
      exact (ih (hn.of_step hx)).step (hn.of_step hx) hx

/-! ## What is still to come -/

/-- The DATA packet of a payload. -/
def packet (x : Exchange) (s : Side) (k : Nat) : Packet := .data (.nth k) ((x.sent s)[k]?.getD [])

/-- Each number of a direction is among some that are still to come, or has arrived. -/
def Awaits (x : Exchange) (s : Side) (rest : List Nat) : Prop :=
  ∀ k < (x.sent s).length, k ∈ rest ∨ (x.engine s.other).Took (x.got s.other) k

theorem eq_packet_of_carries {p : Packet} {k : Nat} (hc : p.Carries (x.sent s) k) :
    p = x.packet s k := by
  rw [packet, hc.payload]
  exact hc.eq_data

theorem InOrder.tracked_packet (ho : x.InOrder s) (hn : (x.sent s).length < 0x80000000) {k : Nat}
    (hk : k < (x.sent s).length) (ht : (x.engine s).Tracks k) :
    (x.packet s k).Carries (x.sent s) k ∧
      ∃ u ∈ (x.engine s).tracker.entries, u.packet = x.packet s k := by
  obtain ⟨u, hu, hseq⟩ := ht
  obtain ⟨j, hc⟩ := ho.sends.tracked u hu
  have hlt := hc.lt
  have hjk : k = j := by
    rw [hc.seq] at hseq
    exact ((SeqNum.nth_inj (by omega) (by omega)).mp hseq).symm
  rw [← hjk] at hc
  exact ⟨eq_packet_of_carries hc ▸ hc, u, hu, eq_packet_of_carries hc⟩

/-- The lowest of the numbers to come is taken, whatever room there is. -/
theorem Awaits.take {k : Nat} {rest : List Nat} (h : x.Awaits s (k :: rest)) (ho : x.InOrder s)
    (hn : (x.sent s).length < 0x80000000) (hlow : ∀ j ∈ rest, k < j) {p : Packet}
    (hc : p.Carries (x.sent s) k) :
    ∃ released l, (x.engine s.other).receive p = (.ok released, l) ∧
      ∀ i packets, (((x.without i).post s.other l packets).handed s.other released).Awaits s
        rest := by
  rcases ho.receives.data hn hc with ⟨-, hahead, -⟩ | ⟨released, l, hok, -, hkeep⟩
  · -- what is next has neither arrived nor is it to come
    exfalso
    rcases h _ (Nat.lt_trans hahead hc.lt) with hmem | hlt | hhas
    · rcases List.mem_cons.mp hmem with heq | hmem
      · omega
      · have := hlow _ hmem
        omega
    · exact Nat.lt_irrefl _ hlt
    · exact ho.receives.expects.not_has hn hhas
  · refine ⟨released, l, hok, ?_⟩
    intro i packets j hj
    rw [sent_handed, sent_post, sent_without] at hj
    rw [engine_handed, engine_post_self, got_handed_self, got_post, got_without]
    rcases h j hj with hmem | htook
    · rcases List.mem_cons.mp hmem with rfl | hmem
      · exact .inr (hkeep _ hj (.inl rfl))
      · exact .inl hmem
    · exact .inr (hkeep _ hj (.inr htook))

end DataPhase

end ReliableDatagram.Exchange
