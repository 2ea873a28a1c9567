/-
What a buffer releases over a whole run.

The packets of a run come in any order, with any numbers, any number of
times.  Every packet that is taken up gets a place: the count of those
released so far, and the steps that it is ahead of the position.  Holding
packets back and releasing them does not change their places, and what is
released has the places that follow each other from the first one on.  So the
places tie the packets released to the packets taken up, however often the
numbers wrap around.

A number alone could not do this.  In a run of more than 2³² packets the same
number stands for many, and serial order says nothing about numbers that far apart.
A place is a number without end; from the position it can be told because what is
held lies less than half the space ahead.

The states between two packets are `Settled`: packets are held under their own
numbers, each number once, all of them ahead, and none of them is the one expected.
A release goes through states that are only `Kept`, where the last part may fail,
and the recursion of `release` is the one induction over it.  One packet leads from
a settled buffer to a settled one and adds to the run as `Sound` says; the induction
over the packets adds nothing but the sum.

The law is `Sound` for a buffer that starts empty, read without places: what was
released, what is held, and how the next packet will be answered.
-/
import ReliableDatagram.Proofs.Assoc
import ReliableDatagram.Proofs.Receiving.Ordering

namespace ReliableDatagram

/-- The packets that an answer gives out. -/
def Delivery.released : Delivery → List Packet
  | .accepted released => released
  | .duplicate | .overflow => []

def Delivery.isAccepted : Delivery → Bool
  | .accepted _ => true
  | .duplicate | .overflow => false

namespace OrderingBuffer

/-! ## Runs -/

def answers (b : OrderingBuffer) : List Packet → List Delivery
  | [] => []
  | p :: ps => (b.receive p).1 :: (b.receive p).2.answers ps

def after (b : OrderingBuffer) : List Packet → OrderingBuffer
  | [] => b
  | p :: ps => (b.receive p).2.after ps

/-- All that is released meanwhile. -/
def stream (b : OrderingBuffer) (ps : List Packet) : List Packet :=
  (b.answers ps).flatMap Delivery.released

/-- The place of a number, if `n` packets are out. -/
def place (b : OrderingBuffer) (n : Nat) (s : SeqNum) : Nat := n + s.offset b.position

/-- The packets held back, with their places. -/
def places (b : OrderingBuffer) (n : Nat) : List (Packet × Nat) :=
  b.held.map fun entry => (entry.2, b.place n entry.1)

/-- The packets that are taken up in a run, with their places. -/
def taken (b : OrderingBuffer) (n : Nat) : List Packet → List (Packet × Nat)
  | [] => []
  | p :: ps =>
    let (answer, b') := b.receive p
    let rest := b'.taken (n + answer.released.length) ps
    if answer.isAccepted then (p, b.place n p.seq) :: rest else rest

theorem stream_cons (b : OrderingBuffer) (p : Packet) (ps : List Packet) :
    b.stream (p :: ps) = (b.receive p).1.released ++ (b.receive p).2.stream ps := by
  rw [stream, answers, List.flatMap_cons, ← stream]

theorem places_map_fst (b : OrderingBuffer) (n : Nat) :
    (b.places n).map Prod.fst = b.held.map Prod.snd := by
  rw [places, List.map_map]
  rfl

theorem length_taken (b : OrderingBuffer) (n : Nat) (ps : List Packet) :
    (b.taken n ps).length = (b.answers ps).countP Delivery.isAccepted := by
  induction ps generalizing b n with
  | nil => rfl
  | cons p ps ih =>
      simp only [taken, answers, List.countP_cons]
      split
      · rw [List.length_cons, ih]
      · rw [ih, Nat.add_zero]

/-! ## One release -/

/-- What is held stands under its number, under one number once, and not before the position. -/
structure Kept (b : OrderingBuffer) : Prop where
  key : ∀ entry ∈ b.held, entry.1 = entry.2.seq
  distinct : (b.held.map Prod.fst).Nodup
  ahead : ∀ entry ∈ b.held, entry.1.isBefore b.position = false

/-- Moreover the turn of none of them has come. -/
structure Settled (b : OrderingBuffer) : Prop extends Kept b where
  waiting : b.find? b.position = none

/-- A buffer has given out the packets at its position and kept the others at their places. -/
structure Releases (b : OrderingBuffer) (out : List Packet) (b' : OrderingBuffer) : Prop where
  kept : b'.Kept
  capacity : b'.capacity = b.capacity
  numbers : out.map (·.seq) = (List.range out.length).map b.position.plus
  position : b'.position = b.position.plus out.length
  places : ∀ n, (b.places n).Perm (out.zipIdx n ++ b'.places (n + out.length))

section Release

variable {b b' : OrderingBuffer} {p : Packet} {out : List Packet}

theorem Kept.releases_nil (h : b.Kept) : b.Releases [] b where
  kept := h
  capacity := rfl
  numbers := rfl
  position := (SeqNum.plus_zero _).symm
  places _ := .refl _

theorem Kept.stepped (h : b.Kept) : b.stepped.Kept where
  key entry hm := h.key entry (mem_stepped.mp hm).1
  distinct := (List.filter_sublist.map Prod.fst).nodup h.distinct
  ahead entry hm := by
    obtain ⟨hm, hne⟩ := mem_stepped.mp hm
    have hb := h.ahead entry hm
    have hoff := SeqNum.offset_next hne
    rw [Bool.eq_false_iff, Ne, SeqNum.isBefore_iff] at hb ⊢
    show ¬ 0x80000000 ≤ entry.1.offset b.position.next
    omega

theorem Kept.places_stepped (h : b.Kept) (hf : b.find? b.position = some p) (n : Nat) :
    (b.places n).Perm ((p, n) :: b.stepped.places (n + 1)) := by
  have hhead : (p, n) = (p, b.place n b.position) := by
    rw [place, SeqNum.offset_self, Nat.add_zero]
  have hrest : b.stepped.places (n + 1) =
      b.stepped.held.map fun entry => (entry.2, b.place n entry.1) := by
    refine List.map_congr_left fun entry hm => ?_
    have hoff := SeqNum.offset_next (mem_stepped.mp hm).2
    refine congrArg (Prod.mk entry.2) ?_
    show n + 1 + entry.1.offset b.position.next = n + entry.1.offset b.position
    omega
  rw [hrest, hhead]
  exact (Assoc.perm_cons_erase h.distinct hf).map fun entry => (entry.2, b.place n entry.1)

theorem Releases.cons (hk : b.Kept) (hf : b.find? b.position = some p)
    (h : b.stepped.Releases out b') : b.Releases (p :: out) b' where
  kept := h.kept
  capacity := h.capacity
  numbers := by
    have hseq : p.seq = b.position := (hk.key _ (mem_of_find? hf)).symm
    have hnext : b.stepped.position.plus = b.position.plus ∘ Nat.succ := by
      funext j
      show b.position.next.plus j = b.position.plus (j + 1)
      rw [SeqNum.next_eq_plus, SeqNum.plus_plus, Nat.add_comm]
    rw [List.map_cons, h.numbers, List.length_cons, List.range_succ_eq_map, List.map_cons,
      List.map_map, hnext, hseq, SeqNum.plus_zero]
  position := by
    rw [h.position, List.length_cons, Nat.add_comm, ← SeqNum.plus_plus]
    rfl
  places n := by
    have hcount : n + (p :: out).length = n + 1 + out.length := by
      rw [List.length_cons]
      omega
    rw [hcount]
    exact (hk.places_stepped hf n).trans ((h.places (n + 1)).cons (p, n))

/-- A release gives out packets at the position; with the whole size as its limit it gives out
all of them. -/
theorem Kept.release (limit : Nat) : ∀ {b : OrderingBuffer}, b.Kept →
    b.Releases (release limit b).1 (release limit b).2 ∧
      (b.size ≤ limit → (release limit b).2.Settled) := by
  induction limit with
  | zero =>
      intro b h
      refine ⟨h.releases_nil, fun hs => ⟨h, ?_⟩⟩
      show b.held.lookup b.position = none
      rw [List.eq_nil_of_length_eq_zero (Nat.le_zero.mp hs)]
      rfl
  | succ limit ih =>
      intro b h
      cases hf : b.find? b.position with
      | none =>
          simp only [OrderingBuffer.release, hf]
          exact ⟨h.releases_nil, fun _ => ⟨h, hf⟩⟩
      | some p =>
          simp only [OrderingBuffer.release, hf]
          obtain ⟨hrel, hset⟩ := ih h.stepped
          have := size_stepped_lt hf
          exact ⟨hrel.cons h hf, fun hs => hset (by omega)⟩

/-! ## One packet -/

theorem find?_eq_none {s : SeqNum} (h : b.find? s = none) : ∀ entry ∈ b.held, entry.1 ≠ s := by
  rintro ⟨_, p⟩ hm rfl
  have hsome := isSome_find?_iff.mpr ⟨p, hm⟩
  rw [h] at hsome
  cases hsome

theorem Kept.hold (h : b.Kept) (hd : b.isDuplicate p.seq = false) : (b.hold p).Kept := by
  rw [isDuplicate, Bool.or_eq_false_iff, Option.isSome_eq_false_iff, Option.isNone_iff_eq_none]
    at hd
  refine ⟨?_, ?_, ?_⟩
  · intro entry hm
    rcases List.mem_cons.mp hm with rfl | hm
    · rfl
    · exact h.key entry hm
  · refine List.nodup_cons.mpr ⟨?_, h.distinct⟩
    intro hm
    obtain ⟨entry, hm, heq⟩ := List.mem_map.mp hm
    exact find?_eq_none hd.2 entry hm heq
  · intro entry hm
    rcases List.mem_cons.mp hm with rfl | hm
    · exact hd.1
    · exact h.ahead entry hm

/-- All that can become of a packet. -/
theorem Settled.receive_cases (h : b.Settled) (p : Packet) :
    (b.receive p = (.duplicate, b) ∧ b.isDuplicate p.seq = true) ∨
      (b.receive p = (.overflow, b) ∧ b.isDuplicate p.seq = false ∧ p.seq ≠ b.position ∧
        b.capacity ≤ b.size) ∨
      ∃ out b', b.receive p = (.accepted out, b') ∧ b.isDuplicate p.seq = false ∧
        ¬ (p.seq ≠ b.position ∧ b.capacity ≤ b.size) ∧ (b.hold p).Releases out b' ∧
        b'.Settled := by
  cases hd : b.isDuplicate p.seq with
  | true => exact .inl ⟨receive_of_isDuplicate hd, rfl⟩
  | false =>
      by_cases ho : p.seq ≠ b.position ∧ b.capacity ≤ b.size
      · refine .inr (.inl ⟨?_, rfl, ho⟩)
        rw [receive, hd, if_neg Bool.false_ne_true, if_pos ho]
      · obtain ⟨hrel, hset⟩ := (h.toKept.hold hd).release (b.hold p).size
        refine .inr (.inr ⟨_, _, ?_, rfl, ho, hrel, hset (Nat.le_refl _)⟩)
        rw [receive, hd, if_neg Bool.false_ne_true, if_neg ho]
        rfl

theorem Settled.receive (h : b.Settled) (p : Packet) :
    ∃ mid : OrderingBuffer, mid.position = b.position ∧ mid.capacity = b.capacity ∧
      (∀ n, b.taken n [p] ++ b.places n = mid.places n) ∧
      mid.Releases (b.receive p).1.released (b.receive p).2 ∧ (b.receive p).2.Settled := by
  rcases h.receive_cases p with ⟨hr, -⟩ | ⟨hr, -⟩ | ⟨out, b', hr, -, -, hrel, hset⟩
  · refine ⟨b, rfl, rfl, fun n => ?_, ?_⟩
    · simp only [taken, hr]
      rfl
    · rw [hr]
      exact ⟨h.releases_nil, h⟩
  · refine ⟨b, rfl, rfl, fun n => ?_, ?_⟩
    · simp only [taken, hr]
      rfl
    · rw [hr]
      exact ⟨h.releases_nil, h⟩
  · refine ⟨b.hold p, rfl, rfl, fun n => ?_, ?_⟩
    · simp only [taken, hr]
      rfl
    · rw [hr]
      exact ⟨hrel, hset⟩

end Release

/-! ## All packets -/

/-- What holds of a run from a buffer on, whatever arrives. -/
structure Sound (b : OrderingBuffer) (ps : List Packet) : Prop where
  settled : (b.after ps).Settled
  capacity : (b.after ps).capacity = b.capacity
  numbers : (b.stream ps).map (·.seq) = (List.range (b.stream ps).length).map b.position.plus
  position : (b.after ps).position = b.position.plus (b.stream ps).length
  taken : ∀ n, (b.taken n ps ++ b.places n).Perm
    ((b.stream ps).zipIdx n ++ (b.after ps).places (n + (b.stream ps).length))

theorem Settled.sound_nil {b : OrderingBuffer} (h : b.Settled) : b.Sound [] where
  settled := h
  capacity := rfl
  numbers := rfl
  position := (SeqNum.plus_zero _).symm
  taken _ := .refl _

theorem Settled.sound_cons {b : OrderingBuffer} (h : b.Settled) (p : Packet) {ps : List Packet}
    (hs : (b.receive p).2.Sound ps) : b.Sound (p :: ps) := by
  obtain ⟨mid, hpos, hcap, hplaces, hrel, -⟩ := h.receive p
  have htaken (n : Nat) : b.taken n (p :: ps) =
      b.taken n [p] ++ (b.receive p).2.taken (n + (b.receive p).1.released.length) ps := by
    simp only [taken]
    split
    · rfl
    · rfl
  refine ⟨hs.settled, ?_, ?_, ?_, fun n => ?_⟩
  · exact hs.capacity.trans (hrel.capacity.trans hcap)
  · rw [stream_cons, List.map_append, List.length_append, List.range_add, List.map_append,
      List.map_map, hrel.numbers, hs.numbers, hrel.position, hpos]
    congr 1
    exact List.map_congr_left fun j _ => SeqNum.plus_plus _ _ _
  · rw [stream_cons, List.length_append, ← SeqNum.plus_plus, ← hpos, ← hrel.position]
    exact hs.position
  · rw [stream_cons, htaken, List.length_append, List.zipIdx_append, ← Nat.add_assoc]
    have hrest := hs.taken (n + (b.receive p).1.released.length)
    -- the packet joins what was held; then first its release and then the run move on
    generalize (b.receive p).2.taken (n + (b.receive p).1.released.length) ps = later at hrest ⊢
    rw [List.append_assoc]
    calc List.Perm (b.taken n [p] ++ (later ++ b.places n)) (later ++ mid.places n) :=
          hplaces n ▸ List.perm_append_comm_assoc _ _ _
      List.Perm _ (later ++ ((b.receive p).1.released.zipIdx n ++ (b.receive p).2.places _)) :=
          (hrel.places n).append_left later
      List.Perm _ ((b.receive p).1.released.zipIdx n ++ (later ++ (b.receive p).2.places _)) :=
          List.perm_append_comm_assoc _ _ _
      List.Perm _ _ := by
          rw [List.append_assoc]
          exact hrest.append_left _

theorem Settled.sound {b : OrderingBuffer} (h : b.Settled) (ps : List Packet) : b.Sound ps := by
  induction ps generalizing b with
  | nil => exact h.sound_nil
  | cons p ps ih =>
      obtain ⟨-, -, -, -, -, hset⟩ := h.receive p
      exact h.sound_cons p (ih hset)

theorem settled_new (start : SeqNum) (capacity : Nat) : (new start capacity).Settled :=
  ⟨⟨nofun, List.nodup_nil, nofun⟩, rfl⟩

/-! ## The law of a run -/

/-- What a run from an empty buffer gives out and holds, and what becomes of the next packet. -/
structure Law (b : OrderingBuffer) (ps : List Packet) : Prop where
  /-- The numbers given out follow each other from the first position on. -/
  numbers : (b.stream ps).map (·.seq) = (List.range (b.stream ps).length).map b.position.plus
  /-- The position is behind the last of them. -/
  position : (b.after ps).position = b.position.plus (b.stream ps).length
  /-- The packets taken up are those given out, each at its place, and those held. -/
  taken : (b.taken 0 ps).Perm ((b.stream ps).zipIdx ++ (b.after ps).places (b.stream ps).length)
  /-- No place is taken twice. -/
  once : ((b.taken 0 ps).map Prod.snd).Nodup
  /-- A place belongs to one number. -/
  placed : ∀ t ∈ b.taken 0 ps, t.1.seq = b.position.plus t.2
  accepted : (b.answers ps).countP Delivery.isAccepted =
    (b.stream ps).length + (b.after ps).size
  /-- Nothing is held whose turn has come. -/
  waiting : (b.after ps).find? (b.after ps).position = none
  duplicate_iff : ∀ p, ((b.after ps).receive p).1 = .duplicate ↔
    (∃ j, 1 ≤ j ∧ j ≤ 0x80000000 ∧ p.seq.plus j = (b.after ps).position) ∨
      ((b.after ps).find? p.seq).isSome = true
  overflow_iff : ∀ p, ((b.after ps).receive p).1 = .overflow ↔
    ((b.after ps).receive p).1 ≠ .duplicate ∧ p.seq ≠ (b.after ps).position ∧
      b.capacity ≤ (b.after ps).size

section Consequences

variable {b : OrderingBuffer} {ps : List Packet} {p : Packet}

theorem Sound.nodup_places (h : b.Sound ps) :
    (((b.stream ps).zipIdx ++ (b.after ps).places (b.stream ps).length).map Prod.snd).Nodup := by
  rw [List.map_append, List.zipIdx_map_snd, places, List.map_map]
  refine List.nodup_append.mpr ⟨List.nodup_range', ?_, ?_⟩
  · have hheld : (((b.after ps).held.map Prod.fst).map
        ((b.after ps).place (b.stream ps).length)).Nodup :=
      List.Pairwise.map _ (fun s t hne heq =>
        hne (SeqNum.offset_inj (Nat.add_left_cancel heq))) h.settled.distinct
    rwa [List.map_map] at hheld
  · intro k hk k' hk' heq
    obtain ⟨entry, -, rfl⟩ := List.mem_map.mp hk'
    have hlt := (List.mem_range'_1.mp hk).2
    simp only [Function.comp_apply, place] at heq
    omega

theorem Sound.seq_of_mem_zipIdx (h : b.Sound ps) {t : Packet × Nat}
    (hm : t ∈ (b.stream ps).zipIdx) : t.1.seq = b.position.plus t.2 := by
  have hget := List.mem_zipIdx_iff_getElem?.mp hm
  have hnum := congrArg (·[t.2]?) h.numbers
  simp only [List.getElem?_map, hget, Option.map_some] at hnum
  obtain ⟨k, hk, hk'⟩ := Option.map_eq_some_iff.mp hnum.symm
  obtain ⟨hlt, rfl⟩ := List.getElem?_eq_some_iff.mp hk
  rw [← hk', List.getElem_range]

theorem Sound.seq_of_mem_places (h : b.Sound ps) {t : Packet × Nat}
    (hm : t ∈ (b.after ps).places (b.stream ps).length) : t.1.seq = b.position.plus t.2 := by
  obtain ⟨entry, hheld, rfl⟩ := List.mem_map.mp hm
  show entry.2.seq = b.position.plus ((b.stream ps).length + entry.1.offset (b.after ps).position)
  rw [← SeqNum.plus_plus, ← h.position, SeqNum.plus_offset]
  exact (h.settled.key entry hheld).symm

theorem receive_eq_duplicate_iff : (b.receive p).1 = .duplicate ↔ b.isDuplicate p.seq = true := by
  rw [receive]
  split
  · next hd => exact iff_of_true rfl hd
  · next hd =>
      refine iff_of_false ?_ hd
      split
      all_goals
        intro heq
        cases heq

theorem receive_eq_overflow_iff : (b.receive p).1 = .overflow ↔
    (b.receive p).1 ≠ .duplicate ∧ p.seq ≠ b.position ∧ b.capacity ≤ b.size := by
  rw [Ne, receive_eq_duplicate_iff, receive]
  split
  · next hd =>
      refine iff_of_false ?_ fun h => h.1 hd
      intro heq
      cases heq
  · next hd =>
      split
      · next ho => exact iff_of_true rfl ⟨hd, ho⟩
      · next ho =>
          refine iff_of_false ?_ fun h => ho h.2
          intro heq
          cases heq

theorem Settled.law (h : b.Settled) (hempty : b.held = []) (ps : List Packet) : b.Law ps := by
  have hs := h.sound ps
  have htaken : (b.taken 0 ps).Perm
      ((b.stream ps).zipIdx ++ (b.after ps).places (b.stream ps).length) := by
    have hperm := hs.taken 0
    rwa [places, hempty, List.map_nil, List.append_nil, Nat.zero_add] at hperm
  refine ⟨hs.numbers, hs.position, htaken, ?_, ?_, ?_, hs.settled.waiting, ?_, ?_⟩
  · exact (htaken.map Prod.snd).nodup_iff.mpr hs.nodup_places
  · intro t hm
    rcases List.mem_append.mp (htaken.mem_iff.mp hm) with hm | hm
    · exact hs.seq_of_mem_zipIdx hm
    · exact hs.seq_of_mem_places hm
  · rw [← length_taken b 0 ps, htaken.length_eq, List.length_append, List.length_zipIdx, places,
      List.length_map, size]
  · intro p
    rw [receive_eq_duplicate_iff, isDuplicate, Bool.or_eq_true, SeqNum.isBefore_iff_plus]
  · intro p
    rw [receive_eq_overflow_iff, hs.capacity]

end Consequences

end OrderingBuffer

end ReliableDatagram
