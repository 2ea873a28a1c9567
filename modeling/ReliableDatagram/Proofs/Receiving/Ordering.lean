/-
Putting one stream of payloads back into order.

A sender numbers its payloads one after the other.  A buffer that has
released the first `k` of them expects number `k` and holds later ones only;
whatever packet of the stream comes next, the buffer goes on to a state of the
same kind, and what it releases is the next piece of the stream.  Nothing
that was held is lost: it is released or held on.  A packet is turned away
only if it is ahead of the position.

This is the buffer as one direction of a connection uses it.  All packets carry
payloads of one stream, and the stream is shorter than half the space of numbers, so
counts and numbers are the same and no place has to be kept beside them.  The
invariant `Expects` names the stream and the count; the stream may grow at its end
meanwhile, since the sender goes on, and the invariant is kept by that as well.

The lemma about a release follows the recursion of `release` with the limit it is
given, and says three things at once: what comes out, what state is left and that
everything else is still there.  Taken apart, each would need the other two.
-/
import ReliableDatagram.Proofs.Serial
import ReliableDatagram.Receiving.OrderingBuffer

namespace ReliableDatagram

/-- The DATA packet of payload number `k` of a stream. -/
structure Packet.Carries (sent : List Bytes) (k : Nat) (p : Packet) : Prop where
  eq_data : p = .data (.nth k) p.payload
  payload : sent[k]? = some p.payload

theorem Packet.Carries.kind {sent : List Bytes} {k : Nat} {p : Packet} (h : p.Carries sent k) :
    p.kind = .data :=
  congrArg Packet.kind h.eq_data

theorem Packet.Carries.seq {sent : List Bytes} {k : Nat} {p : Packet} (h : p.Carries sent k) :
    p.seq = .nth k :=
  congrArg Packet.seq h.eq_data

theorem Packet.Carries.lt {sent : List Bytes} {k : Nat} {p : Packet} (h : p.Carries sent k) :
    k < sent.length :=
  (List.getElem?_eq_some_iff.mp h.payload).1

theorem Packet.Carries.append {sent : List Bytes} {k : Nat} {p : Packet} (h : p.Carries sent k)
    (more : List Bytes) : p.Carries (sent ++ more) k :=
  ⟨h.eq_data, by rw [List.getElem?_append_left h.lt, h.payload]⟩

namespace OrderingBuffer

/-- Whether number `k` of the stream is held back. -/
def Has (b : OrderingBuffer) (k : Nat) : Prop := (b.find? (.nth k)).isSome = true

/-- Only packets of the stream from `lo` on are held back. -/
def HoldsFrom (b : OrderingBuffer) (sent : List Bytes) (lo : Nat) : Prop :=
  ∀ entry ∈ b.held, ∃ j, lo ≤ j ∧ entry.1 = .nth j ∧ entry.2.Carries sent j

/-- Number `k` of the stream is next, and only later ones are held back. -/
structure Expects (b : OrderingBuffer) (sent : List Bytes) (k : Nat) : Prop where
  le : k ≤ sent.length
  position : b.position = .nth k
  held : b.HoldsFrom sent (k + 1)

/-! ## Looking up -/

theorem isSome_find?_iff {b : OrderingBuffer} {s : SeqNum} :
    (b.find? s).isSome = true ↔ ∃ p, (s, p) ∈ b.held := by
  rw [find?]
  constructor
  · intro h
    obtain ⟨p, hp⟩ := Option.isSome_iff_exists.mp h
    obtain ⟨_, _, hl, -⟩ := List.lookup_eq_some_iff.mp hp
    exact ⟨p, by rw [hl]; simp⟩
  · rintro ⟨p, hp⟩
    cases hl : b.held.lookup s with
    | some q => rfl
    | none => simpa using List.lookup_eq_none_iff.mp hl _ hp

theorem has_iff {b : OrderingBuffer} {k : Nat} : b.Has k ↔ ∃ p, (.nth k, p) ∈ b.held :=
  isSome_find?_iff

theorem mem_of_find? {b : OrderingBuffer} {s : SeqNum} {p : Packet} (h : b.find? s = some p) :
    (s, p) ∈ b.held := by
  obtain ⟨_, _, hl, -⟩ := List.lookup_eq_some_iff.mp h
  rw [hl]
  simp

theorem not_has_of_held_nil {b : OrderingBuffer} (h : b.held = []) (k : Nat) : ¬ b.Has k := by
  rw [has_iff, h]
  rintro ⟨p, hp⟩
  cases hp

section Stream

variable {b : OrderingBuffer} {sent : List Bytes} {k : Nat}

theorem HoldsFrom.le_of_has {lo j : Nat} (h : b.HoldsFrom sent lo) (hn : sent.length < 0x80000000)
    (hj : j < 0x80000000) (hh : b.Has j) : lo ≤ j ∧ j < sent.length := by
  obtain ⟨p, hp⟩ := has_iff.mp hh
  obtain ⟨i, hi, hs, hc⟩ := h _ hp
  have hlt := hc.lt
  rw [(SeqNum.nth_inj hj (by omega)).mp hs]
  exact ⟨hi, hlt⟩

theorem Expects.not_has (h : b.Expects sent k) (hn : sent.length < 0x80000000) : ¬ b.Has k := by
  intro hh
  have := h.le
  have := (h.held.le_of_has hn (by omega) hh).1
  omega

theorem HoldsFrom.append {lo : Nat} (h : b.HoldsFrom sent lo) (more : List Bytes) :
    b.HoldsFrom (sent ++ more) lo := by
  intro entry hm
  obtain ⟨j, hj, hs, hc⟩ := h entry hm
  exact ⟨j, hj, hs, hc.append more⟩

theorem Expects.append (h : b.Expects sent k) (more : List Bytes) :
    b.Expects (sent ++ more) k :=
  ⟨by have := h.le; rw [List.length_append]; omega, h.position, h.held.append more⟩

/-! ## Releasing -/

theorem mem_stepped {entry : SeqNum × Packet} :
    entry ∈ b.stepped.held ↔ entry ∈ b.held ∧ entry.1 ≠ b.position := by
  simp [stepped]

theorem size_stepped_lt {p : Packet} (h : b.find? b.position = some p) :
    b.stepped.size < b.size := by
  have hm := mem_of_find? h
  refine List.length_filter_lt_length_iff_exists.mpr ⟨_, hm, ?_⟩
  simp

theorem HoldsFrom.stepped (h : b.HoldsFrom sent k) (hp : b.position = .nth k) :
    b.stepped.HoldsFrom sent (k + 1) := by
  intro entry hm
  obtain ⟨hm, hne⟩ := mem_stepped.mp hm
  obtain ⟨j, hj, hs, hc⟩ := h entry hm
  refine ⟨j, ?_, hs, hc⟩
  have : j ≠ k := fun heq => hne (by rw [hs, hp, heq])
  omega

theorem has_stepped {j : Nat} (hp : b.position = .nth k) (hn : k < 0x80000000)
    (hj : j < 0x80000000) (h : b.Has j) : j = k ∨ b.stepped.Has j := by
  by_cases heq : j = k
  · exact .inl heq
  · obtain ⟨p, hm⟩ := has_iff.mp h
    refine .inr (has_iff.mpr ⟨p, mem_stepped.mpr ⟨hm, ?_⟩⟩)
    rw [hp]
    exact fun hs => heq ((SeqNum.nth_inj hj hn).mp hs)

/-- A release gives out a piece of the stream and holds on to the rest. -/
theorem release_spec (hn : sent.length < 0x80000000) :
    ∀ (limit : Nat) {b : OrderingBuffer} {k : Nat}, k ≤ sent.length → b.position = .nth k →
      b.HoldsFrom sent k →
      ∃ m, k + m ≤ sent.length ∧ (release limit b).1.map (·.payload) = (sent.drop k).take m ∧
        (release limit b).2.position = .nth (k + m) ∧
        (release limit b).2.HoldsFrom sent (k + m) ∧
        (∀ j < sent.length, b.Has j → j < k + m ∨ (release limit b).2.Has j) ∧
        (b.size ≤ limit → ¬ (release limit b).2.Has (k + m)) := by
  intro limit
  -- on the limit, with buffer and position general, since each packet given out moves both
  induction limit with
  | zero =>
      intro b k hk hp hh
      refine ⟨0, hk, rfl, hp, hh, fun j _ hj => .inr hj, ?_⟩
      intro hs
      exact not_has_of_held_nil (List.eq_nil_of_length_eq_zero (Nat.le_zero.mp hs)) _
  | succ limit ih =>
      intro b k hk hp hh
      cases hf : b.find? b.position with
      | none =>
          simp only [release, hf]
          refine ⟨0, hk, rfl, hp, hh, fun j _ hj => .inr hj, ?_⟩
          intro _
          rw [Nat.add_zero, Has, ← hp, hf]
          exact Bool.false_ne_true
      | some p =>
          simp only [release, hf]
          obtain ⟨j, hj, hs, hc⟩ := hh _ (mem_of_find? hf)
          have hlt := hc.lt
          -- the packet found is number `k` of the stream
          have heq : k = j := by
            rw [hp] at hs
            exact (SeqNum.nth_inj (by omega) (by omega)).mp hs
          rw [← heq] at hlt hc
          have hp' : b.stepped.position = .nth (k + 1) := by
            rw [← SeqNum.next_nth, ← hp]
            rfl
          obtain ⟨m, hm, hrel, hpos, hhold, hkeep, hnext⟩ :=
            ih (b := b.stepped) (k := k + 1) hlt hp' (hh.stepped hp)
          have hsucc : k + (m + 1) = k + 1 + m := by omega
          refine ⟨m + 1, by omega, ?_, hsucc ▸ hpos, hsucc ▸ hhold, ?_, ?_⟩
          · rw [List.map_cons, hrel, List.drop_eq_getElem_cons hlt, List.take_succ_cons]
            congr 1
            have := hc.payload
            rw [List.getElem?_eq_getElem hlt] at this
            exact (Option.some.inj this).symm
          · intro i hi hi'
            rcases has_stepped hp (by omega) (by omega) hi' with hik | hst
            · omega
            · rcases hkeep i hi hst with hlt' | hhas
              · omega
              · exact .inr hhas
          · intro hsize
            have := size_stepped_lt hf
            rw [hsucc]
            exact hnext (by omega)

/-! ## Receiving -/

theorem Expects.isDuplicate_iff (h : b.Expects sent k) (hn : sent.length < 0x80000000) {j : Nat}
    (hj : j < sent.length) : b.isDuplicate (.nth j) = true ↔ j < k ∨ b.Has j := by
  have := h.le
  rw [isDuplicate, Bool.or_eq_true, h.position, SeqNum.isBefore_nth (by omega) (by omega), Has]

theorem has_hold {p : Packet} {j : Nat} (h : b.Has j ∨ p.seq = .nth j) : (b.hold p).Has j := by
  rw [has_iff]
  rcases h with hb | hs
  · obtain ⟨q, hq⟩ := has_iff.mp hb
    exact ⟨q, List.mem_cons_of_mem _ hq⟩
  · exact ⟨p, by rw [← hs]; exact List.mem_cons_self⟩

/-- What the buffer does with a packet of the stream: it turns it away, or what it releases
comes next in the stream and the packet is released or held. -/
theorem Expects.receive (h : b.Expects sent k) (hn : sent.length < 0x80000000) {j : Nat}
    {p : Packet} (hc : p.Carries sent j) :
    (b.receive p = (.overflow, b) ∧ k < j ∧ ¬ b.Has j) ∨
      (b.receive p = (.duplicate, b) ∧ (j < k ∨ b.Has j)) ∨
      ∃ released b' m, b.receive p = (.accepted released, b') ∧ b'.Expects sent (k + m) ∧
        released.map (·.payload) = (sent.drop k).take m ∧
        ∀ i < sent.length, i = j ∨ b.Has i → i < k + m ∨ b'.Has i := by
  have hk := h.le
  have hj := hc.lt
  cases hd : b.isDuplicate p.seq with
  | true =>
      refine .inr (.inl ⟨receive_of_isDuplicate hd, ?_⟩)
      rw [hc.seq] at hd
      exact (h.isDuplicate_iff hn hj).mp hd
  | false =>
      have hnew : ¬ (j < k ∨ b.Has j) := by
        rw [← h.isDuplicate_iff hn hj, ← hc.seq, hd]
        exact Bool.false_ne_true
      rw [not_or, Nat.not_lt] at hnew
      by_cases ho : p.seq ≠ b.position ∧ b.capacity ≤ b.size
      · refine .inl ⟨by simp [OrderingBuffer.receive, hd, ho], ?_, hnew.2⟩
        have : j ≠ k := fun heq => ho.1 (by rw [hc.seq, h.position, heq])
        omega
      · have hhold : (b.hold p).HoldsFrom sent k := by
          intro entry hm
          rcases List.mem_cons.mp hm with rfl | hm
          · exact ⟨j, hnew.1, hc.seq, hc⟩
          · obtain ⟨i, hi, hs, hci⟩ := h.held entry hm
            exact ⟨i, by omega, hs, hci⟩
        obtain ⟨m, hm, hrel, hpos, hfrom, hkeep, hnext⟩ :=
          release_spec hn (b.hold p).size (b := b.hold p) hk h.position hhold
        refine .inr (.inr ⟨(b.hold p).drain.1, (b.hold p).drain.2, m, ?_, ?_, hrel, ?_⟩)
        · rw [OrderingBuffer.receive, hd, if_neg Bool.false_ne_true, if_neg ho]
        · refine ⟨hm, hpos, ?_⟩
          intro entry hme
          obtain ⟨i, hi, hs, hci⟩ := hfrom entry hme
          refine ⟨i, ?_, hs, hci⟩
          -- the release went as far as it could: the number it stopped at is not held
          have : i ≠ k + m := by
            intro heq
            exact hnext (Nat.le_refl _) (has_iff.mpr ⟨entry.2, by rw [← heq, ← hs]; exact hme⟩)
          omega
        · intro i hi hor
          refine hkeep i hi (has_hold ?_)
          rcases hor with rfl | hb
          · exact .inr hc.seq
          · exact .inl hb

theorem Expects.advance_first (h : b.Expects sent k) (hn : sent.length < 0x80000000) :
    b.advance .first = ([], b) := by
  have := h.le
  refine advance_of_not_isAfter ?_
  rw [h.position]
  exact SeqNum.not_isAfter_nth (by omega)

end Stream

theorem expects_new (capacity : Nat) : (OrderingBuffer.new .first capacity).Expects [] 0 :=
  ⟨Nat.le_refl _, rfl, fun _ hm => nomatch hm⟩

end OrderingBuffer

end ReliableDatagram
