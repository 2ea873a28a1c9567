/-
Packets in another order end in the same place.

Serial order is no order on all numbers, but it is one on half the space from
any number on.  If all numbers of a run lie in one such window, together with
the number that is expected first, then a number that was received lies behind
the position or is held, for good.  So the position is the first number that
did not arrive, and what is held are the later numbers that did: both depend
on the numbers alone and not on the order of their arrival.

A run may hold numbers that lie behind the first position as well.  If such a number
stays behind wherever the position gets, each of its packets is a duplicate, and the
run is the same without them; what is left lies in the window that begins at the
first position.  The positions that a run can get to are known beforehand: it moves
on over numbers that arrived.  Hence the condition `Steady`, which speaks of the
numbers only and not of any run.

The condition cannot be left out.  A number nearly half the space behind the first
position is a duplicate as long as nothing was released, and lies ahead as soon as
the position has moved on by two; then it is held.  Which of the two happens is
decided by the order of arrival, and the last theorem shows it.
-/
import ReliableDatagram.Proofs.Receiving.Runs

namespace ReliableDatagram.OrderingBuffer

/-- The numbers held back. -/
def numbers (b : OrderingBuffer) : List SeqNum := b.held.map Prod.fst

/-- The position is `m` steps on from `w`, within half the space, and so is all that is held. -/
structure Within (w : SeqNum) (m : Nat) (b : OrderingBuffer) : Prop where
  position : b.position = w.plus m
  le : m ≤ 0x80000000
  numbers : ∀ s ∈ b.numbers, s.offset w < 0x80000000

/-- A number lies behind the position or is held. -/
def Covers (w : SeqNum) (m : Nat) (b : OrderingBuffer) (s : SeqNum) : Prop :=
  s.offset w < m ∨ s ∈ b.numbers

section Window

variable {w : SeqNum} {m : Nat} {b b' : OrderingBuffer} {out : List Packet} {p : Packet}
  {ps qs : List Packet} {s : SeqNum}

theorem isSome_find?_iff_mem : (b.find? s).isSome = true ↔ s ∈ b.numbers := by
  rw [isSome_find?_iff, numbers, List.mem_map]
  constructor
  · rintro ⟨p, hp⟩
    exact ⟨_, hp, rfl⟩
  · rintro ⟨⟨_, p⟩, hp, rfl⟩
    exact ⟨p, hp⟩

theorem Kept.numbers_eq (h : b.Kept) : b.numbers = (b.held.map Prod.snd).map (·.seq) := by
  rw [numbers, List.map_map]
  exact List.map_congr_left h.key

/-! ## One packet -/

theorem Releases.numbers_perm (h : b.Releases out b') (hk : b.Kept) :
    b.numbers.Perm ((List.range out.length).map b.position.plus ++ b'.numbers) := by
  have hperm := ((h.places 0).map Prod.fst).map (·.seq)
  rw [List.map_append, List.map_append, List.zipIdx_map_fst, h.numbers, places_map_fst,
    places_map_fst] at hperm
  rw [hk.numbers_eq, h.kept.numbers_eq]
  exact hperm

theorem Within.hold (h : b.Within w m) (hp : p.seq.offset w < 0x80000000) :
    (b.hold p).Within w m where
  position := h.position
  le := h.le
  numbers s hs := by
    rcases List.mem_cons.mp hs with rfl | hs
    · exact hp
    · exact h.numbers s hs

theorem Within.releases (h : b.Within w m) (hk : b.Kept) (hr : b.Releases out b') :
    b'.Within w (m + out.length) := by
  have hperm := hr.numbers_perm hk
  have hle : ∀ j ≤ out.length, m + j ≤ 0x80000000 := by
    intro j
    induction j with
    | zero => exact fun _ => h.le
    | succ j ih =>
        intro hj
        have hlt := ih (by omega)
        have hm : b.position.plus j ∈ b.numbers :=
          hperm.mem_iff.mpr (List.mem_append_left _ (List.mem_map.mpr
            ⟨j, List.mem_range.mpr hj, rfl⟩))
        have hoff := h.numbers _ hm
        rw [h.position, SeqNum.plus_plus, SeqNum.offset_plus] at hoff
        omega
  refine ⟨?_, hle _ (Nat.le_refl _), ?_⟩
  · rw [hr.position, h.position, SeqNum.plus_plus]
  · exact fun s hs => h.numbers s (hperm.mem_iff.mpr (List.mem_append_right _ hs))

theorem Covers.releases (h : b.Covers w m s) (hw : b.Within w m) (hk : b.Kept)
    (hr : b.Releases out b') : b'.Covers w (m + out.length) s := by
  have hle := (hw.releases hk hr).le
  rcases h with hlt | hm
  · exact .inl (by omega)
  · rcases List.mem_append.mp ((hr.numbers_perm hk).mem_iff.mp hm) with hm | hm
    · obtain ⟨j, hj, rfl⟩ := List.mem_map.mp hm
      have hj := List.mem_range.mp hj
      refine .inl ?_
      rw [hw.position, SeqNum.plus_plus, SeqNum.offset_plus]
      omega
    · exact .inr hm

theorem Within.receive (hw : b.Within w m) (h : b.Settled) (hp : p.seq.offset w < 0x80000000)
    (hno : (b.receive p).1 ≠ .overflow) :
    (b.receive p).2.Within w (m + (b.receive p).1.released.length) ∧
      ∀ s, s = p.seq ∨ b.Covers w m s →
        (b.receive p).2.Covers w (m + (b.receive p).1.released.length) s := by
  rcases h.receive_cases p with ⟨hr, hd⟩ | ⟨hr, -⟩ | ⟨out, b', hr, -, -, hrel, -⟩
  · rw [hr]
    refine ⟨hw, fun s hs => ?_⟩
    rcases hs with rfl | hs
    · rw [isDuplicate, Bool.or_eq_true, hw.position, SeqNum.isBefore_plus_iff hp hw.le] at hd
      exact hd.imp_right isSome_find?_iff_mem.mp
    · exact hs
  · exact absurd (congrArg Prod.fst hr) hno
  · have hd : b.isDuplicate p.seq = false := by
      rw [Bool.eq_false_iff, Ne, ← receive_eq_duplicate_iff, hr]
      intro heq
      cases heq
    have hk := h.toKept.hold hd
    rw [hr]
    refine ⟨(hw.hold hp).releases hk hrel, fun s hs => ?_⟩
    refine Covers.releases ?_ (hw.hold hp) hk hrel
    rcases hs with rfl | hlt | hm
    · exact .inr List.mem_cons_self
    · exact .inl hlt
    · exact .inr (List.mem_cons_of_mem _ hm)

/-! ## A run -/

theorem Within.run (hw : b.Within w m) (h : b.Settled)
    (hps : ∀ p ∈ ps, p.seq.offset w < 0x80000000) (hno : .overflow ∉ b.answers ps) :
    (b.after ps).Within w (m + (b.stream ps).length) ∧
      ∀ s, s ∈ ps.map (·.seq) ∨ b.Covers w m s →
        (b.after ps).Covers w (m + (b.stream ps).length) s := by
  induction ps generalizing b m with
  | nil => exact ⟨hw, fun s hs => hs.resolve_left List.not_mem_nil⟩
  | cons p ps ih =>
      obtain ⟨hfirst, hlater⟩ := not_or.mp (mt List.mem_cons.mpr hno)
      obtain ⟨hw', hcov⟩ := hw.receive h (hps p List.mem_cons_self) (Ne.symm hfirst)
      obtain ⟨-, -, -, -, -, hset⟩ := h.receive p
      obtain ⟨hw'', hcov'⟩ := ih hw' hset (fun q hq => hps q (List.mem_cons_of_mem _ hq)) hlater
      have hlen : m + (b.stream (p :: ps)).length =
          m + (b.receive p).1.released.length + ((b.receive p).2.stream ps).length := by
        rw [stream_cons, List.length_append, Nat.add_assoc]
      rw [hlen]
      refine ⟨hw'', fun s hs => hcov' s ?_⟩
      rw [List.map_cons, List.mem_cons, or_assoc] at hs
      rcases hs with rfl | hs | hs
      · exact .inr (hcov _ (.inl rfl))
      · exact .inl hs
      · exact .inr (hcov s (.inr hs))

theorem mem_of_mem_taken {n : Nat} {t : Packet × Nat} (h : t ∈ b.taken n ps) : t.1 ∈ ps := by
  induction ps generalizing b n with
  | nil => nomatch h
  | cons p ps ih =>
      simp only [taken] at h
      split at h
      · rcases List.mem_cons.mp h with rfl | h
        · exact List.mem_cons_self
        · exact List.mem_cons_of_mem _ (ih h)
      · exact List.mem_cons_of_mem _ (ih h)

theorem Law.mem_of_mem_stream (h : b.Law ps) (hm : p ∈ b.stream ps) : p ∈ ps := by
  obtain ⟨k, hk⟩ := List.mem_iff_getElem?.mp hm
  have hz : (p, k) ∈ (b.stream ps).zipIdx := List.mem_zipIdx_iff_getElem?.mpr hk
  exact mem_of_mem_taken (h.taken.mem_iff.mpr (List.mem_append_left _ hz))

theorem Law.mem_of_mem_numbers (h : b.Law ps) (hk : (b.after ps).Kept)
    (hm : s ∈ (b.after ps).numbers) : s ∈ ps.map (·.seq) := by
  obtain ⟨entry, hentry, rfl⟩ := List.mem_map.mp hm
  have hplace : (entry.2, (b.after ps).place (b.stream ps).length entry.1) ∈
      (b.after ps).places (b.stream ps).length := List.mem_map.mpr ⟨entry, hentry, rfl⟩
  refine List.mem_map.mpr ⟨entry.2, ?_, (hk.key entry hentry).symm⟩
  exact mem_of_mem_taken (h.taken.mem_iff.mpr (List.mem_append_right _ hplace))

/-! ## Two runs -/

/-- Two runs give out the same and hold the same. -/
structure SameOutcome (b : OrderingBuffer) (ps qs : List Packet) : Prop where
  numbers : (b.stream ps).map (·.seq) = (b.stream qs).map (·.seq)
  /-- If a number stands for one packet, the packets are the same as well. -/
  stream : (∀ p ∈ ps, ∀ q ∈ qs, p.seq = q.seq → p = q) → b.stream ps = b.stream qs
  position : (b.after ps).position = (b.after qs).position
  held : (b.after ps).numbers.Perm (b.after qs).numbers

/-- No run gives out more than another one with the same numbers. -/
theorem Settled.length_stream_le (h : b.Settled) (hempty : b.held = []) (hw : b.Within w m)
    (hqs : ∀ q ∈ qs, q.seq.offset w < 0x80000000)
    (hsub : ∀ s, s ∈ ps.map (·.seq) → s ∈ qs.map (·.seq)) (hno : .overflow ∉ b.answers qs) :
    (b.stream ps).length ≤ (b.stream qs).length := by
  obtain ⟨hw', hcov⟩ := hw.run h hqs hno
  refine Nat.le_of_not_lt fun hlt => ?_
  have hlaw := h.law hempty ps
  -- the number that the second run still waits for was given out in the first one
  have hmem : b.position.plus (b.stream qs).length ∈ (b.stream ps).map (·.seq) := by
    rw [hlaw.numbers]
    exact List.mem_map.mpr ⟨_, List.mem_range.mpr hlt, rfl⟩
  obtain ⟨p, hp, hseq⟩ := List.mem_map.mp hmem
  have harrived := hsub _ (List.mem_map.mpr ⟨p, hlaw.mem_of_mem_stream hp, hseq⟩)
  have hle := hw'.le
  rcases hcov _ (.inl harrived) with hoff | hm
  · rw [hw.position, SeqNum.plus_plus, SeqNum.offset_plus] at hoff
    omega
  · rw [← (h.law hempty qs).position, ← isSome_find?_iff_mem, (h.law hempty qs).waiting] at hm
    cases hm

theorem Settled.numbers_subset (h : b.Settled) (hempty : b.held = []) (hw : b.Within w m)
    (hps : ∀ p ∈ ps, p.seq.offset w < 0x80000000) (hqs : ∀ q ∈ qs, q.seq.offset w < 0x80000000)
    (hsub : ∀ s, s ∈ ps.map (·.seq) → s ∈ qs.map (·.seq)) (hno : .overflow ∉ b.answers qs)
    (hlen : (b.stream ps).length = (b.stream qs).length) (hs : s ∈ (b.after ps).numbers) :
    s ∈ (b.after qs).numbers := by
  have hk := (h.sound ps).settled.toKept
  have harrived := (h.law hempty ps).mem_of_mem_numbers hk hs
  obtain ⟨hw', hcov⟩ := hw.run h hqs hno
  refine (hcov s (.inl (hsub s harrived))).resolve_left fun hoff => ?_
  -- a number behind the position is not held
  obtain ⟨entry, hentry, rfl⟩ := List.mem_map.mp hs
  obtain ⟨p, hp, hseq⟩ := List.mem_map.mp harrived
  have hahead := hk.ahead entry hentry
  rw [(h.sound ps).position, hw.position, SeqNum.plus_plus, hlen, ← hseq] at hahead
  rw [← hseq] at hoff
  rw [(SeqNum.isBefore_plus_iff (hps p hp) hw'.le).mpr hoff] at hahead
  cases hahead

theorem Settled.sameOutcome (h : b.Settled) (hempty : b.held = []) (hw : b.Within w m)
    (hps : ∀ p ∈ ps, p.seq.offset w < 0x80000000)
    (hsame : ∀ s, s ∈ ps.map (·.seq) ↔ s ∈ qs.map (·.seq))
    (hno : .overflow ∉ b.answers ps) (hno' : .overflow ∉ b.answers qs) :
    b.SameOutcome ps qs := by
  have hqs : ∀ q ∈ qs, q.seq.offset w < 0x80000000 := by
    intro q hq
    obtain ⟨p, hp, hseq⟩ := List.mem_map.mp ((hsame q.seq).mpr (List.mem_map.mpr ⟨q, hq, rfl⟩))
    exact hseq ▸ hps p hp
  have hlen : (b.stream ps).length = (b.stream qs).length :=
    Nat.le_antisymm
      (h.length_stream_le hempty hw hqs (fun s => (hsame s).mp) hno')
      (h.length_stream_le hempty hw hps (fun s => (hsame s).mpr) hno)
  have hnum : (b.stream ps).map (·.seq) = (b.stream qs).map (·.seq) := by
    rw [(h.law hempty ps).numbers, (h.law hempty qs).numbers, hlen]
  refine ⟨hnum, fun hone => ?_, ?_, ?_⟩
  · refine List.ext_getElem hlen fun k hk hk' => ?_
    refine hone _ ((h.law hempty ps).mem_of_mem_stream (List.getElem_mem hk)) _
      ((h.law hempty qs).mem_of_mem_stream (List.getElem_mem hk')) ?_
    have hseq := List.getElem_of_eq hnum (by rwa [List.length_map] : k < _)
    rwa [List.getElem_map, List.getElem_map] at hseq
  · rw [(h.law hempty ps).position, (h.law hempty qs).position, hlen]
  · refine (List.perm_ext_iff_of_nodup (h.sound ps).settled.distinct
      (h.sound qs).settled.distinct).mpr fun s => ?_
    exact ⟨h.numbers_subset hempty hw hps hqs (fun s => (hsame s).mp) hno' hlen,
      h.numbers_subset hempty hw hqs hps (fun s => (hsame s).mpr) hno hlen.symm⟩

end Window

/-! ## Numbers that lie behind -/

/-- A number that lies ahead of `start`, or that stays behind while the position moves on over
the numbers of `arriving`. -/
def Steady (start : SeqNum) (arriving : List SeqNum) (s : SeqNum) : Prop :=
  s.offset start < 0x80000000 ∨
    ∀ k, (∀ j < k, start.plus j ∈ arriving) → s.isBefore (start.plus k) = true

/-- Whether a packet lies at or ahead of a number. -/
def isAhead (start : SeqNum) (p : Packet) : Bool := p.seq.offset start < 0x80000000

section Behind

variable {b : OrderingBuffer} {start : SeqNum} {ps qs : List Packet} {p : Packet}

theorem receive_of_isBefore (h : p.seq.isBefore b.position = true) :
    b.receive p = (.duplicate, b) := by
  rw [receive, isDuplicate, h, Bool.true_or, if_pos rfl]

/-- Packets that are behind when they arrive leave no trace in a run. -/
theorem run_filter {q : Packet → Bool} (h : ∀ front p rest, ps = front ++ p :: rest → q p = false →
    p.seq.isBefore (b.after front).position = true) :
    b.after (ps.filter q) = b.after ps ∧ b.stream (ps.filter q) = b.stream ps ∧
      (.overflow ∈ b.answers (ps.filter q) → .overflow ∈ b.answers ps) := by
  induction ps generalizing b with
  | nil => exact ⟨rfl, rfl, id⟩
  | cons p ps ih =>
      obtain ⟨hafter, hstream, hover⟩ := @ih (b.receive p).2 fun front p' rest heq hq =>
        h (p :: front) p' rest (congrArg (List.cons p) heq) hq
      cases hq : q p with
      | true =>
          rw [List.filter_cons_of_pos hq, stream_cons, stream_cons, hstream]
          exact ⟨hafter, rfl, fun hm => List.mem_cons.mpr ((List.mem_cons.mp hm).imp_right hover)⟩
      | false =>
          have hdup : b.receive p = (.duplicate, b) := receive_of_isBefore (h [] p ps rfl hq)
          rw [hdup] at hafter hstream hover
          rw [List.filter_cons_of_neg (Bool.eq_false_iff.mp hq), stream_cons, hdup]
          refine ⟨hafter.trans ?_, hstream, fun hm => List.mem_cons_of_mem _ ?_⟩
          · rw [after, hdup]
          · rw [hdup]
            exact hover hm

/-- The position of a run moves on over numbers that arrived. -/
theorem Law.isBefore_of_steady (h : b.Law ps) {arriving : List SeqNum} {s : SeqNum}
    (hsub : ∀ p ∈ ps, p.seq ∈ arriving) (hs : Steady b.position arriving s)
    (hbehind : ¬ s.offset b.position < 0x80000000) : s.isBefore (b.after ps).position = true := by
  rw [h.position]
  refine hs.resolve_left hbehind _ fun j hj => ?_
  have hmem : b.position.plus j ∈ (b.stream ps).map (·.seq) := by
    rw [h.numbers]
    exact List.mem_map.mpr ⟨j, List.mem_range.mpr hj, rfl⟩
  obtain ⟨p, hp, hseq⟩ := List.mem_map.mp hmem
  exact hseq ▸ hsub p (h.mem_of_mem_stream hp)

theorem Settled.run_isAhead (h : b.Settled) (hempty : b.held = [])
    (hsteady : ∀ p ∈ ps, Steady b.position (ps.map (·.seq)) p.seq) :
    b.after (ps.filter (isAhead b.position)) = b.after ps ∧
      b.stream (ps.filter (isAhead b.position)) = b.stream ps ∧
      (.overflow ∈ b.answers (ps.filter (isAhead b.position)) → .overflow ∈ b.answers ps) := by
  refine run_filter ?_
  rintro front p rest rfl hq
  refine (h.law hempty front).isBefore_of_steady (fun q hm => ?_)
    (hsteady p (List.mem_append_right _ List.mem_cons_self)) (of_decide_eq_false hq)
  exact List.mem_map_of_mem (List.mem_append_left _ hm)

theorem Settled.sameOutcome_of_steady (h : b.Settled) (hempty : b.held = [])
    (hsteady : ∀ p ∈ ps, Steady b.position (ps.map (·.seq)) p.seq)
    (hsame : ∀ s, s ∈ ps.map (·.seq) ↔ s ∈ qs.map (·.seq))
    (hno : .overflow ∉ b.answers ps) (hno' : .overflow ∉ b.answers qs) :
    b.SameOutcome ps qs := by
  have hsteady' : ∀ q ∈ qs, Steady b.position (qs.map (·.seq)) q.seq := by
    intro q hq
    obtain ⟨p, hp, hseq⟩ := List.mem_map.mp ((hsame q.seq).mpr (List.mem_map_of_mem hq))
    refine (hseq ▸ hsteady p hp).imp_right fun hbehind k hk => ?_
    exact hbehind k fun j hj => (hsame _).mpr (hk j hj)
  obtain ⟨hafter, hstream, hover⟩ := h.run_isAhead hempty hsteady
  obtain ⟨hafter', hstream', hover'⟩ := h.run_isAhead hempty hsteady'
  have hmem {rs : List Packet} (s : SeqNum) :
      s ∈ (rs.filter (isAhead b.position)).map (·.seq) ↔
        s ∈ rs.map (·.seq) ∧ s.offset b.position < 0x80000000 := by
    simp only [List.mem_map, List.mem_filter, isAhead, decide_eq_true_iff]
    constructor
    · rintro ⟨p, ⟨hp, hahead⟩, rfl⟩
      exact ⟨⟨p, hp, rfl⟩, hahead⟩
    · rintro ⟨⟨p, hp, rfl⟩, hahead⟩
      exact ⟨p, ⟨hp, hahead⟩, rfl⟩
  have hw : b.Within b.position 0 :=
    ⟨(SeqNum.plus_zero _).symm, Nat.zero_le _, by simp [numbers, hempty]⟩
  -- packets that stay behind leave no trace, so both runs are runs of those ahead
  have hout : b.SameOutcome (ps.filter (isAhead b.position)) (qs.filter (isAhead b.position)) := by
    refine h.sameOutcome hempty hw (fun p hp => ?_) (fun s => ?_) (mt hover hno) (mt hover' hno')
    · exact of_decide_eq_true (List.mem_filter.mp hp).2
    · rw [hmem, hmem, hsame]
  refine ⟨?_, fun hone => ?_, ?_, ?_⟩
  · rw [← hstream, ← hstream', hout.numbers]
  · rw [← hstream, ← hstream']
    exact hout.stream fun p hp q hq => hone p (List.mem_filter.mp hp).1 q (List.mem_filter.mp hq).1
  · rw [← hafter, ← hafter', hout.position]
  · rw [← hafter, ← hafter']
    exact hout.held

end Behind

/-! ## Main result -/

/-- Every run from a new buffer keeps the law.  Two runs that do not overflow come to the same,
whatever the order and however often the packets arrive, if their numbers are the same and each
of them is steady: no number behind the first position comes to lie ahead of a later one. -/
theorem law_of_every_run (start : SeqNum) (capacity : Nat) :
    (∀ ps, (new start capacity).Law ps) ∧
    ∀ ps qs : List Packet, (∀ p ∈ ps, Steady start (ps.map (·.seq)) p.seq) →
      (∀ s, s ∈ ps.map (·.seq) ↔ s ∈ qs.map (·.seq)) →
      .overflow ∉ (new start capacity).answers ps →
      .overflow ∉ (new start capacity).answers qs →
      (new start capacity).SameOutcome ps qs := by
  have h := settled_new start capacity
  exact ⟨h.law rfl, fun ps qs => h.sameOutcome_of_steady rfl⟩

/-- Numbers on both sides of the greatest one and one behind the first position, in two orders.
Two of them arrive twice. -/
theorem law_of_wrapping_run :
    let start : SeqNum := ⟨0xffffffff⟩
    let packet (n : UInt32) : Packet := .data ⟨n⟩ [7]
    let ps := [packet 1, packet 0xffffffff, packet 0x90000000, packet 3, packet 0]
    let qs := [packet 3, packet 0x90000000, packet 0, packet 0, packet 1, packet 0xffffffff,
      packet 0x90000000]
    (∀ p ∈ ps, Steady start (ps.map (·.seq)) p.seq) ∧
      (∀ s, s ∈ ps.map (·.seq) ↔ s ∈ qs.map (·.seq)) ∧
      .overflow ∉ (new start 3).answers ps ∧ .overflow ∉ (new start 3).answers qs ∧
      (new start 3).stream ps = [packet 0xffffffff, packet 0, packet 1] ∧
      (new start 3).Law ps ∧ (new start 3).SameOutcome ps qs := by
  intro start packet ps qs
  have hbehind : Steady start (ps.map (·.seq)) ⟨0x90000000⟩ := by
    refine .inr fun k hk => ?_
    -- the number 2 is missing, so the position gets no further than there
    have hle : k ≤ 3 := Nat.le_of_not_lt fun hlt => absurd (hk 3 hlt) (by decide)
    match k, hle with
    | 0, _ | 1, _ | 2, _ | 3, _ => decide
  have hsteady : ∀ p ∈ ps, Steady start (ps.map (·.seq)) p.seq := by
    intro p hp
    by_cases hseq : p.seq = ⟨0x90000000⟩
    · rw [hseq]
      exact hbehind
    · have hahead : ∀ p ∈ ps, p.seq ≠ ⟨0x90000000⟩ → p.seq.offset start < 0x80000000 := by decide
      exact .inl (hahead p hp hseq)
  have hnumbers : ∀ s, s ∈ ps.map (·.seq) ↔ s ∈ qs.map (·.seq) := by
    intro s
    simp only [ps, qs, packet, Packet.data, Packet.new, List.map_cons, List.map_nil,
      List.mem_cons, List.not_mem_nil, or_false]
    grind
  have hps : .overflow ∉ (new start 3).answers ps := by decide
  have hqs : .overflow ∉ (new start 3).answers qs := by decide
  obtain ⟨hlaw, hsame⟩ := law_of_every_run start 3
  exact ⟨hsteady, hnumbers, hps, hqs, by decide, hlaw ps, hsame ps qs hsteady hnumbers hps hqs⟩

/-- Numbers less than half the space away from the first position need not be steady: this one
is a duplicate if it comes first, and is held back once the position is at 2. -/
theorem not_sameOutcome_of_near :
    ¬ ∀ (start : SeqNum) (capacity : Nat) (ps qs : List Packet),
      (∀ p ∈ ps, p.kind = .data ∧ (p.seq.distance start).natAbs < 0x80000000) →
      (∀ s, s ∈ ps.map (·.seq) ↔ s ∈ qs.map (·.seq)) →
      .overflow ∉ (new start capacity).answers ps →
      .overflow ∉ (new start capacity).answers qs →
      (new start capacity).SameOutcome ps qs := by
  intro h
  have hsame := h .zero 8 [.data ⟨0x80000001⟩ [7], .data ⟨0⟩ [8], .data ⟨1⟩ [9]]
    [.data ⟨0⟩ [8], .data ⟨1⟩ [9], .data ⟨0x80000001⟩ [7]] (by decide)
    (fun s => by simp only [List.map_cons, List.map_nil, List.mem_cons]; grind)
    (by decide) (by decide)
  exact absurd hsame.held.length_eq (by decide)

end ReliableDatagram.OrderingBuffer
