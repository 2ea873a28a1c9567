/-
A live connection hands out nothing twice.

A reply to a SYN moves the receive position forward, over numbers that are
then given up; any other packet moves it past what is handed out and no
further.  The positions are counted on where the numbers wrap around: each
packet handed out stands as many steps ahead of the receive position as its
number does, and the receive position goes on by what is passed over and
handed out.

Counting on is what makes "twice" mean something.  In a long run each number comes
back, and the packet under it then is another one; a position comes once.
`Onward` is one packet of the run, from a buffer at rest to one at rest, and
`Advances` is the run, with the count at its start as a parameter, so that a run
can be put behind another one.

A SYN without ACK flag is left out of these runs.  It sets the receive position
back to where a new connection starts, and after it everything may be handed out
again: this is a property of end points, and what follows from it is told in the
modules about networks.

Main statement: in a run without a new SYN the receive position only goes on,
each packet handed out stands behind all that were handed out or passed over
before, and a reply to a SYN that comes late does nothing at all.
-/
import ReliableDatagram.Proofs.Engine.Refusals
import ReliableDatagram.Proofs.Receiving.Forward

namespace ReliableDatagram

/-- The packets of an answer; a refusal hands out none. -/
def Released.packets : Released → List Packet
  | .ok packets => packets
  | .error _ => []

/-- Whether a connection goes on with a packet.  A SYN without ACK starts it anew. -/
def Packet.continues (p : Packet) : Bool := !p.isKind .syn || p.hasFlag .ack

/-- How many numbers a packet passes over: those up to the one behind a SYN, if that is ahead. -/
def Packet.passes (p : Packet) (position : SeqNum) : Nat :=
  if p.isKind .syn then (p.seq.next.distance position).toNat else 0

theorem Packet.passes_of_ne {p : Packet} {position : SeqNum} (h : p.kind ≠ .syn) :
    p.passes position = 0 := by
  rw [passes, isKind, beq_eq_false_iff_ne.mpr h, if_neg Bool.false_ne_true]

namespace LockedEngine

variable {l : LockedEngine} {p : Packet}

theorem moves_receive (h : l.ordering.Settled) (hp : p.continues = true) :
    l.ordering.Moves (p.passes l.ordering.position) (l.receive p).1.packets
      (l.receive p).2.ordering := by
  rw [receive]
  cases hk : p.kind with
  | data =>
      have hm := h.moves_receive p
      rw [Packet.passes_of_ne (by simp [hk])]
      simp only [receiveData]
      split
      all_goals
        next heq =>
          rw [heq] at hm
          exact hm
  | syn =>
      have ha : p.hasFlag .ack = true := by simpa [Packet.continues, Packet.isKind, hk] using hp
      have hm := h.moves_advance p.seq.next
      simp only [receiveSyn, ha, if_true, Packet.passes, Packet.isKind, hk, beq_self_eq_true]
      exact hm
  | ack | fin | rst =>
      rw [Packet.passes_of_ne (by simp [hk])]
      exact h.moves_nil

end LockedEngine

namespace Engine

def position (e : Engine) : SeqNum := e.ordering.position

def released (e : Engine) (p : Packet) : List Packet := (e.receive p).1.packets

/-- The receive position after a run that starts with `n`. -/
def reached (e : Engine) (n : Nat) : List Packet → Nat
  | [] => n
  | p :: ps =>
    (e.receive p).2.reached (n + (p.passes e.position + (e.released p).length)) ps

/-- All that is handed out in a run, each packet with its position: as many steps ahead of the
receive position as its number is. -/
def given (e : Engine) (n : Nat) : List Packet → List (Packet × Nat)
  | [] => []
  | p :: ps =>
    (e.released p).map (fun q => (q, n + q.seq.offset e.position)) ++
      (e.receive p).2.given (n + (p.passes e.position + (e.released p).length)) ps

/-- A packet moves the receive position forward: over what it passes and then past what is handed
out, the numbers that follow from there on. -/
structure Onward (e : Engine) (p : Packet) : Prop where
  numbers : (e.released p).map (·.seq) =
    (List.range' (p.passes e.position) (e.released p).length).map e.position.plus
  position : (e.receive p).2.position =
    e.position.plus (p.passes e.position + (e.released p).length)
  le : p.passes e.position + (e.released p).length ≤ 0x80000000

/-- An engine whose receive position nothing but a new SYN sets back. -/
def Live (e : Engine) : Prop := ∃ l, e.Follows l ∧ l.ordering.Settled

section Live

variable {e : Engine} {p : Packet} {ps : List Packet} {n : Nat} {start : SeqNum}

/-! ## One packet -/

theorem Live.receive (h : e.Live) (hp : p.continues = true) :
    e.Onward p ∧ (e.receive p).2.Live := by
  obtain ⟨l, hf, hs⟩ := h
  obtain ⟨hanswer, hf'⟩ := hf.receive p
  have hm := LockedEngine.moves_receive hs hp
  rw [← hanswer, ← hf'.ordering, ← hf.ordering] at hm
  refine ⟨⟨hm.numbers, hm.position, hm.le⟩, _, hf', ?_⟩
  rw [← hf'.ordering]
  exact hm.settled

/-- What is handed out stands where the numbers passed over end. -/
theorem Onward.places (h : e.Onward p) (n : Nat) :
    (e.released p).map (fun q => n + q.seq.offset e.position) =
      List.range' (n + p.passes e.position) (e.released p).length := by
  have hle := h.le
  calc (e.released p).map (fun q => n + q.seq.offset e.position)
      = ((e.released p).map (·.seq)).map (fun s => n + s.offset e.position) := by
        rw [List.map_map]
        rfl
    _ = (List.range' (p.passes e.position) (e.released p).length).map
          (fun j => n + (e.position.plus j).offset e.position) := by
        rw [h.numbers, List.map_map]
        rfl
    _ = (List.range' (p.passes e.position) (e.released p).length).map (n + ·) := by
        refine List.map_congr_left ?_
        intro j hj
        -- no more than half the space ahead, so the number tells its distance
        have hlt := (List.mem_range'_1.mp hj).2
        rw [SeqNum.offset_plus, Nat.mod_eq_of_lt (by omega)]
    _ = List.range' (n + p.passes e.position) (e.released p).length :=
        List.map_add_range' _ _ 1

/-- A reply to a SYN that leads nowhere forward does nothing. -/
theorem Live.receive_of_late (h : e.Live) (hk : p.kind = .syn) (ha : p.hasFlag .ack = true)
    (hlate : p.seq.next.isAfter e.position = false) : e.receive p = (.ok [], e) := by
  obtain ⟨l, hf, -⟩ := h
  cases e with
  | locked e =>
      have hadv : e.ordering.advance p.seq.next = ([], e.ordering) :=
        OrderingBuffer.advance_of_not_isAfter hlate
      simp only [Engine.receive, LockedEngine.receive, hk, LockedEngine.receiveSyn, ha, if_true,
        hadv]
      rfl
  | lockFree f =>
      have hagrees : f.Agrees l := hf
      have hadv : f.ordering.advance p.seq.next = ([], f.ordering) :=
        OrderingBuffer.advance_of_not_isAfter hlate
      have hpublished : f.ordering.position = f.published := by
        rw [hagrees.ordering, hagrees.published]
      have hprocess : f.process (.resync p.seq.next true) = (.ok [], f) := by
        simp only [LockFreeEngine.process, hadv, LockFreeEngine.publish, hpublished]
      have hreceive : f.receive p = (.ok [], f) := by
        simp only [LockFreeEngine.receive, LockFreeEngine.workOf?, hk, ha,
          LockFreeEngine.receiveWork_eq hagrees.free hagrees.idle, hprocess, Attempt.getD]
      rw [Engine.receive, hreceive]
      rfl

/-! ## A run -/

/-- What holds of a run that starts at position `n`, counted from the number `start` on. -/
structure Advances (e : Engine) (start : SeqNum) (n : Nat) (ps : List Packet) : Prop where
  live : (e.after (ps.map .receive)).Live
  le : n ≤ e.reached n ps
  position : (e.after (ps.map .receive)).position = start.plus (e.reached n ps)
  increasing : ((e.given n ps).map Prod.snd).Pairwise (· < ·)
  placed : ∀ t ∈ e.given n ps,
    n ≤ t.2 ∧ t.2 < e.reached n ps ∧ t.1.seq = start.plus t.2

/-- What a packet hands out stands between the receive positions before and after it. -/
theorem Onward.placed (h : e.Onward p) (hpos : e.position = start.plus n) {t : Packet × Nat}
    (ht : t ∈ (e.released p).map fun q => (q, n + q.seq.offset e.position)) :
    n + p.passes e.position ≤ t.2 ∧
      t.2 < n + (p.passes e.position + (e.released p).length) ∧ t.1.seq = start.plus t.2 := by
  obtain ⟨q, hq, rfl⟩ := List.mem_map.mp ht
  have hmem : n + q.seq.offset e.position ∈
      List.range' (n + p.passes e.position) (e.released p).length := by
    rw [← h.places n]
    exact List.mem_map_of_mem hq
  obtain ⟨hmin, hmax⟩ := List.mem_range'_1.mp hmem
  refine ⟨hmin, by omega, ?_⟩
  show q.seq = start.plus (n + q.seq.offset e.position)
  rw [← SeqNum.plus_plus, ← hpos, SeqNum.plus_offset]

theorem Onward.advances (h : e.Onward p) (hpos : e.position = start.plus n)
    (hrest : (e.receive p).2.Advances start
      (n + (p.passes e.position + (e.released p).length)) ps) :
    e.Advances start n (p :: ps) := by
  have hle := hrest.le
  refine ⟨hrest.live, ?_, hrest.position, ?_, ?_⟩
  · show n ≤ (e.receive p).2.reached _ ps
    omega
  · rw [given, List.map_append, List.map_map]
    refine List.pairwise_append.mpr ⟨?_, hrest.increasing, ?_⟩
    · have hplaces := h.places n
      exact hplaces ▸ List.pairwise_lt_range'
    · intro k hk k' hk'
      obtain ⟨q, hq, rfl⟩ := List.mem_map.mp hk
      obtain ⟨t, ht, rfl⟩ := List.mem_map.mp hk'
      have hfirst := (h.placed hpos (List.mem_map_of_mem hq)).2.1
      have hlater := (hrest.placed t ht).1
      exact Nat.lt_of_lt_of_le hfirst hlater
  · intro t ht
    rcases List.mem_append.mp ht with ht | ht
    · obtain ⟨hmin, hmax, hseq⟩ := h.placed hpos ht
      exact ⟨by omega, Nat.lt_of_lt_of_le hmax hle, hseq⟩
    · obtain ⟨hmin, hmax, hseq⟩ := hrest.placed t ht
      exact ⟨by omega, hmax, hseq⟩

theorem Live.advances (h : e.Live) (hpos : e.position = start.plus n)
    (hps : ∀ p ∈ ps, p.continues = true) : e.Advances start n ps := by
  -- the position is general: the rest of the run starts where the first packet leads
  induction ps generalizing e n with
  | nil => exact ⟨h, Nat.le_refl n, hpos, List.Pairwise.nil, nofun⟩
  | cons p ps ih =>
      obtain ⟨hon, hlive⟩ := h.receive (hps p List.mem_cons_self)
      have hnext : (e.receive p).2.position =
          start.plus (n + (p.passes e.position + (e.released p).length)) := by
        rw [hon.position, hpos, SeqNum.plus_plus]
      exact hon.advances hpos (ih hlive hnext fun q hq => hps q (List.mem_cons_of_mem _ hq))

/-! ## Runs that go on -/

theorem given_append (e : Engine) (n : Nat) (ps qs : List Packet) :
    e.given n (ps ++ qs) =
      e.given n ps ++ (e.after (ps.map .receive)).given (e.reached n ps) qs := by
  induction ps generalizing e n with
  | nil => rfl
  | cons p ps ih =>
      rw [List.cons_append, given, given, ih, List.append_assoc]
      rfl

/-- Nothing is handed out from among the numbers that a packet passes over. -/
theorem Advances.not_given (h : e.Advances start n ps) {qs : List Packet}
    (hp : p.continues = true) (hqs : ∀ q ∈ qs, q.continues = true) {t : Packet × Nat}
    (ht : t ∈ e.given n (ps ++ p :: qs)) :
    t.2 < e.reached n ps ∨
      e.reached n ps + p.passes (e.after (ps.map .receive)).position ≤ t.2 := by
  rw [given_append] at ht
  obtain ⟨hon, hlive⟩ := h.live.receive hp
  rcases List.mem_append.mp ht with ht | ht
  · exact .inl (h.placed t ht).2.1
  · refine .inr ?_
    rcases List.mem_append.mp ht with ht | ht
    · exact (hon.placed h.position ht).1
    · have hnext := hon.position
      rw [h.position, SeqNum.plus_plus] at hnext
      have hmin := ((hlive.advances hnext hqs).placed t (h.position ▸ ht)).1
      rw [h.position]
      omega

end Live

/-! ## Main result -/

theorem live_start {kind : EngineKind} {config : Reliability} {e : Engine}
    (hnew : new kind config = .ok e) : e.Live ∧ e.position = config.initialReceive := by
  obtain ⟨-, hf⟩ := follows_start hnew
  refine ⟨⟨_, hf, OrderingBuffer.settled_new _ _⟩, ?_⟩
  exact congrArg OrderingBuffer.position hf.ordering

/-- A run of received packets, on an engine of either kind, with no SYN that starts the connection
anew.  Positions count from the number that is expected first.  The receive position is the one
reached; the packets handed out stand at increasing positions before it, each under the number of
its position; whatever packet is next moves the receive position forward, by half the space at
most, and what it passes over is handed out neither before nor later; and a reply to a SYN that
is not ahead of the receive position does nothing. -/
theorem never_redelivers {kind : EngineKind} {config : Reliability} {e : Engine}
    (hnew : new kind config = .ok e) {ps : List Packet}
    (hps : ∀ p ∈ ps, p.continues = true) :
    let n := e.reached 0 ps
    let last := e.after (ps.map .receive)
    last.position = config.initialReceive.plus n ∧
      ((e.given 0 ps).map Prod.snd).Pairwise (· < ·) ∧
      (∀ t ∈ e.given 0 ps, t.2 < n ∧ t.1.seq = config.initialReceive.plus t.2) ∧
      (∀ p, p.continues = true → last.Onward p ∧
        ∀ qs, (∀ q ∈ qs, q.continues = true) → ∀ t ∈ e.given 0 (ps ++ p :: qs),
          t.2 < n ∨ n + p.passes last.position ≤ t.2) ∧
      ∀ p, p.kind = .syn → p.hasFlag .ack = true → p.seq.next.isAfter last.position = false →
        last.receive p = (.ok [], last) := by
  obtain ⟨hlive, hpos⟩ := live_start hnew
  have hrun : e.Advances config.initialReceive 0 ps :=
    hlive.advances (hpos.trans (SeqNum.plus_zero _).symm) hps
  refine ⟨hrun.position, hrun.increasing, ?_, ?_, ?_⟩
  · intro t ht
    exact (hrun.placed t ht).2
  · intro p hp
    refine ⟨(hrun.live.receive hp).1, ?_⟩
    intro qs hqs t ht
    exact hrun.not_given hp hqs ht
  · intro p hk ha hlate
    exact hrun.live.receive_of_late hk ha hlate

/-- Settings whose first number is the greatest one. -/
def lastNumberFirst : Reliability where
  receiveCapacity := 4
  initialReceive := ⟨0xffffffff⟩

/-- A packet waits behind a gap; a reply to a SYN passes over two numbers of the gap; one of them
comes late, and so does another reply; the rest of the gap is filled. -/
def passingRun : List Packet :=
  [.data ⟨3⟩ [7], .data ⟨0xffffffff⟩ [7], .synAck ⟨1⟩ .zero, .data ⟨0⟩ [7],
    .synAck ⟨0xffffffff⟩ .zero, .data ⟨2⟩ [7]]

theorem never_redelivers_passed :
    ∃ e, new .lockFree lastNumberFirst = .ok e ∧ (∀ p ∈ passingRun, p.continues = true) ∧
      (e.given 0 passingRun).map Prod.snd = [0, 3, 4] ∧
      (e.after (passingRun.map .receive)).position = ⟨4⟩ := by
  obtain ⟨e, hnew⟩ : ∃ e, new .lockFree lastNumberFirst = .ok e := ⟨_, rfl⟩
  have hcontinues : ∀ p ∈ passingRun, p.continues = true := by decide
  have hgiven : (e.given 0 passingRun).map Prod.snd = [0, 3, 4] := by
    cases hnew
    decide +kernel
  have hreached : e.reached 0 passingRun = 5 := by
    cases hnew
    decide +kernel
  obtain ⟨hposition, -⟩ := never_redelivers hnew hcontinues
  rw [hreached] at hposition
  exact ⟨e, hnew, hcontinues, hgiven, hposition⟩

end Engine

end ReliableDatagram
