/-
A buffer whose position is set anew.

Between two packets the position may be moved to any number: forward, back, or
by half the space, where each of two numbers is before the other.  What is
held then counts as before or ahead from the new position on, and a packet
that counts as before would stay for ever and take up room.  So it is dropped
at once, whatever it was before the move; and what is left lies less than half
the space ahead, as it does after a packet.

The packet that fills the gap is held for a moment even if there is no room
for it.  It is the first one to be released, and that makes room again.

So `Fits` is kept by every call: the buffer is settled and holds no more packets than
its capacity.  The bound is not kept inside a call, which is why the lemma about the
packet at the position counts what is released before it looks at what is left.

A move is a release from what is left behind the new position.  This makes the two
kinds of call alike; each ends in a release, and maximality is a property of
releases: no packet is held whose turn has come.

Main statement: whatever calls are made, a buffer holds packets ahead of its
position only, and never more of them than its capacity.
-/
import ReliableDatagram.Proofs.Receiving.Forward

namespace ReliableDatagram

/-- A call that may change a buffer. -/
inductive OrderingCall where
  | receive (packet : Packet)
  | resync (target : SeqNum)
  | advance (target : SeqNum)

namespace OrderingBuffer

def afterCall (b : OrderingBuffer) : OrderingCall → OrderingBuffer
  | .receive p => (b.receive p).2
  | .resync target => (b.resync target).2
  | .advance target => (b.advance target).2

def afterCalls (b : OrderingBuffer) : List OrderingCall → OrderingBuffer
  | [] => b
  | c :: rest => (b.afterCall c).afterCalls rest

/-- A packet under its number, as a buffer holds it. -/
def entryOf (p : Packet) : SeqNum × Packet := (p.seq, p)

/-- A buffer at rest, with no more packets than it has room for. -/
structure Fits (b : OrderingBuffer) (capacity : Nat) : Prop extends Settled b where
  capacity_eq : b.capacity = capacity
  size_le : b.size ≤ capacity

/-- A buffer has dropped what it held from before `target`, given out what follows from there on
without a gap, and kept the rest. -/
structure MovesTo (b : OrderingBuffer) (target : SeqNum) (out : List Packet)
    (b' : OrderingBuffer) : Prop where
  numbers : out.map (·.seq) = (List.range out.length).map target.plus
  position : b'.position = target.plus out.length
  /-- What is not before the target is given out or held on, and nothing else is. -/
  kept : (b.held.filter (! ·.1.isBefore target)).Perm (out.map entryOf ++ b'.held)
  /-- The packet after those given out is not there. -/
  maximal : ∀ entry ∈ b.held, entry.1.isBefore target = false →
    entry.1 ≠ target.plus out.length

section Moving

variable {b b' mid : OrderingBuffer} {p : Packet} {out : List Packet} {capacity : Nat}

theorem fits_new (start : SeqNum) (capacity : Nat) : (new start capacity).Fits capacity :=
  ⟨settled_new start capacity, rfl, Nat.zero_le _⟩

/-! ## One release -/

theorem Releases.held_perm (h : b.Releases out b') (hk : b.Kept) :
    b.held.Perm (out.map entryOf ++ b'.held) := by
  have hentries {b : OrderingBuffer} (hk : b.Kept) :
      b.held = (b.held.map Prod.snd).map entryOf := by
    rw [List.map_map]
    refine (List.map_id _).symm.trans (List.map_congr_left fun entry hm => ?_)
    exact Prod.ext (hk.key entry hm) rfl
  have hpackets := ((h.places 0).map Prod.fst).map entryOf
  rw [List.map_append, List.map_append, List.zipIdx_map_fst, places_map_fst, places_map_fst,
    ← hentries hk, ← hentries h.kept] at hpackets
  exact hpackets

theorem Releases.size_eq (h : b.Releases out b') (hk : b.Kept) :
    b.size = out.length + b'.size := by
  have hlen := (h.held_perm hk).length_eq
  rwa [List.length_append, List.length_map] at hlen

theorem Releases.maximal (h : b.Releases out b') (hk : b.Kept) (hs : b'.Settled) :
    ∀ entry ∈ b.held, entry.1 ≠ b.position.plus out.length := by
  intro entry hm heq
  rcases List.mem_append.mp ((h.held_perm hk).mem_iff.mp hm) with hout | hheld
  · -- the numbers given out do not come round to the position again
    obtain ⟨p, hp, rfl⟩ := List.mem_map.mp hout
    have hseq : p.seq ∈ out.map (·.seq) := List.mem_map.mpr ⟨p, hp, rfl⟩
    rw [h.numbers] at hseq
    obtain ⟨j, hj, hplus⟩ := List.mem_map.mp hseq
    have hj := List.mem_range.mp hj
    have hle := (hk.within.releases hk h).le
    have hoff := congrArg (·.offset b.position) (hplus.trans heq)
    simp only [SeqNum.offset_plus] at hoff
    omega
  · exact find?_eq_none hs.waiting entry hheld (heq.trans h.position.symm)

/-! ## One packet -/

/-- The packet at the position is given out first, however full the buffer is. -/
theorem Settled.receive_position (h : b.Settled) (hp : p.seq = b.position) :
    ∃ rest, (b.receive p).1 = .accepted (p :: rest) := by
  have hd : b.isDuplicate p.seq = false := by
    rw [isDuplicate, hp, h.waiting, Bool.or_eq_false_iff]
    exact ⟨by rw [Bool.eq_false_iff, Ne, SeqNum.isBefore_iff, SeqNum.offset_self]; decide, rfl⟩
  have hf : (b.hold p).find? (b.hold p).position = some p := by
    show ((p.seq, p) :: b.held).lookup b.position = some p
    rw [hp, List.lookup_cons_self]
  refine ⟨(OrderingBuffer.release b.size (b.hold p).stepped).1, ?_⟩
  rw [OrderingBuffer.receive, hd, if_neg Bool.false_ne_true, if_neg fun ho => ho.1 hp]
  show Delivery.accepted (OrderingBuffer.release (b.size + 1) (b.hold p)).1 = _
  simp only [OrderingBuffer.release, hf]

theorem Fits.receive (h : b.Fits capacity) (p : Packet) : (b.receive p).2.Fits capacity := by
  rcases h.receive_cases p with ⟨hr, -⟩ | ⟨hr, -⟩ | ⟨out, b', hr, hd, hroom, hrel, hset⟩
  · rwa [hr]
  · rwa [hr]
  · have hsize := hrel.size_eq (h.toKept.hold hd)
    have hone : (b.hold p).size = b.size + 1 := rfl
    rw [hr]
    refine ⟨hset, hrel.capacity.trans h.capacity_eq, ?_⟩
    show b'.size ≤ capacity
    have hle := h.size_le
    by_cases hp : p.seq = b.position
    · -- without room there is one packet more than fits, and at least this one goes
      obtain ⟨rest, hfirst⟩ := h.receive_position hp
      rw [hr] at hfirst
      cases hfirst
      rw [List.length_cons] at hsize
      omega
    · have hlt : ¬ b.capacity ≤ b.size := fun hfull => hroom ⟨hp, hfull⟩
      rw [h.capacity_eq] at hlt
      omega

/-! ## One move -/

/-- Setting the position anew is a release of what is left behind the new position. -/
theorem Kept.resync (h : b.Kept) (target : SeqNum) :
    Releases { b with position := target, held := b.held.filter (! ·.1.isBefore target) }
        (b.resync target).1 (b.resync target).2 ∧
      (b.resync target).2.Settled := by
  obtain ⟨hrel, hset⟩ := (h.retarget target).release
    (b.held.filter (! ·.1.isBefore target)).length
  exact ⟨hrel, hset (Nat.le_refl _)⟩

theorem Kept.movesTo (h : b.Kept) (target : SeqNum) :
    b.MovesTo target (b.resync target).1 (b.resync target).2 := by
  obtain ⟨hrel, hset⟩ := h.resync target
  have hk := h.retarget target
  refine ⟨hrel.numbers, hrel.position, hrel.held_perm hk, fun entry hm hb => ?_⟩
  exact hrel.maximal hk hset entry (List.mem_filter.mpr ⟨hm, by rw [hb]; rfl⟩)

theorem Fits.resync (h : b.Fits capacity) (target : SeqNum) :
    (b.resync target).2.Fits capacity := by
  obtain ⟨hrel, hset⟩ := h.toKept.resync target
  refine ⟨hset, hrel.capacity.trans h.capacity_eq, ?_⟩
  have hsize := hrel.size_eq (h.toKept.retarget target)
  have hfilter : (b.held.filter (! ·.1.isBefore target)).length ≤ b.size :=
    List.length_filter_le _ _
  have hle := h.size_le
  simp only [size] at *
  omega

theorem Fits.advance (h : b.Fits capacity) (target : SeqNum) :
    (b.advance target).2.Fits capacity := by
  rw [OrderingBuffer.advance]
  split
  · exact h.resync target
  · exact h

/-! ## Runs -/

theorem Fits.afterCall (h : b.Fits capacity) (c : OrderingCall) :
    (b.afterCall c).Fits capacity := by
  cases c with
  | receive p => exact h.receive p
  | resync target => exact h.resync target
  | advance target => exact h.advance target

theorem Fits.afterCalls (h : b.Fits capacity) (calls : List OrderingCall) :
    (b.afterCalls calls).Fits capacity := by
  induction calls generalizing b with
  | nil => exact h
  | cons c rest ih => exact ih (h.afterCall c)

/-! ## Main result -/

/-- What holds of a buffer of some capacity at any time. -/
structure Tidy (b : OrderingBuffer) (capacity : Nat) : Prop where
  /-- Every packet held stands under its own number, -/
  key : ∀ entry ∈ b.held, entry.1 = entry.2.seq
  /-- no number has two of them, -/
  distinct : b.numbers.Nodup
  /-- and each is at least one step ahead, and less than half the space. -/
  ahead : ∀ s ∈ b.numbers, ∃ j, 1 ≤ j ∧ j < 0x80000000 ∧ s = b.position.plus j
  waiting : b.position ∉ b.numbers
  size_le : b.size ≤ capacity
  /-- The packet whose turn has come is taken up and given out first. -/
  next : ∀ p, p.seq = b.position → ∃ rest, (b.receive p).1 = .accepted (p :: rest)
  resync : ∀ target, b.MovesTo target (b.resync target).1 (b.resync target).2

theorem Fits.tidy (h : b.Fits capacity) : b.Tidy capacity := by
  have hwaiting : b.position ∉ b.numbers := by
    rw [← isSome_find?_iff_mem, h.waiting]
    exact Bool.false_ne_true
  refine ⟨h.key, h.distinct, fun s hs => ?_, hwaiting, h.size_le,
    fun p hp => h.receive_position hp, h.toKept.movesTo⟩
  have hne : s ≠ b.position := fun heq => hwaiting (heq ▸ hs)
  have hoff := SeqNum.offset_next hne
  have hlt := h.toKept.within.numbers s hs
  exact ⟨s.offset b.position, by omega, hlt, (SeqNum.plus_offset _ _).symm⟩

end Moving

/-- After packets with any numbers and moves to any targets, in any order, a buffer is in this
state; so nothing that it holds can block its room for ever. -/
theorem tidy_of_every_run (start : SeqNum) (capacity : Nat) (calls : List OrderingCall) :
    ((new start capacity).afterCalls calls).Tidy capacity :=
  ((fits_new start capacity).afterCalls calls).tidy

-- Two packets leave no room.  Half the space from the second one on, that one counts as before
-- the position and the first one as ahead of it.
example :
    let full := (new ⟨1⟩ 2).afterCalls [.receive (.data ⟨3⟩ [7]), .receive (.data ⟨4⟩ [8])]
    (full.receive (.data ⟨2⟩ [6])).1 = .overflow ∧
      (full.receive (.data ⟨1⟩ [5])).1 = .accepted [.data ⟨1⟩ [5]] ∧
      (full.resync ⟨3⟩).1 = [.data ⟨3⟩ [7], .data ⟨4⟩ [8]] ∧
      (full.resync ⟨0x80000004⟩).2.numbers = [⟨3⟩] := by
  decide

end OrderingBuffer

end ReliableDatagram
