/-
Working off what other callers have queued.

Whoever finds the drain flag taken leaves its work in the queue, and whoever
holds the flag works it off with its own.  Each item is worked off on the
buffer that the item before it has left, and its result is filed under its own
ticket; so every caller gets what it would have got, had all of them come one
after the other, and a result that is an error is that caller's alone.

The steps of all callers, in whatever order they come, keep the queue a ring
that holds work with tickets of its own, and the published position up to date
whenever the flag is free.

`Reached` has one constructor for each step that a caller can take by itself: take
the flag, give it back, work off an item, take one from the queue, queue one,
collect a result, and everything that has no part in receiving.  They may be taken
by any callers and in any order, so a state in the middle of another caller's work
is among them.  `Consistent` is kept by each step and is all that the main result
needs, which therefore holds of states that no run leads to as well.

A packet that is turned away leaves no trace.  Its caller gets the error, and the
answers of all others are what they would be without it; this is the lemma about
erasing a packet from the list of packets received.

Main statement: draining the queue is receiving its packets one after the other.
-/
import Mathlib.Data.List.Nodup
import ReliableDatagram.Proofs.Engine.Construction
import ReliableDatagram.Proofs.Engine.Refusals
import ReliableDatagram.Proofs.Receiving.Queue

namespace ReliableDatagram

/-- The work that a packet makes, wherever the ordering buffer stands. -/
def Packet.work? (p : Packet) : Option Work :=
  match p.kind with
  | .data => some (.data p)
  | .syn => some (.resync p.seq.next (p.hasFlag .ack))
  | _ => none

/-! ## Packets received one after the other -/

namespace LockedEngine

/-- The answers to packets received one after the other. -/
def receiveAll (l : LockedEngine) : List Packet → List Released
  | [] => []
  | p :: rest => (l.receive p).1 :: (l.receive p).2.receiveAll rest

def afterAll (l : LockedEngine) : List Packet → LockedEngine
  | [] => l
  | p :: rest => (l.receive p).2.afterAll rest

theorem length_receiveAll (l : LockedEngine) (packets : List Packet) :
    (l.receiveAll packets).length = packets.length := by
  induction packets generalizing l with
  | nil => rfl
  | cons p rest ih => rw [receiveAll, List.length_cons, ih, List.length_cons]

/-- A packet that is turned away might as well not have come. -/
theorem receiveAll_eraseIdx {l : LockedEngine} {packets : List Packet} {i : Nat}
    {err : EngineError} (h : (l.receiveAll packets)[i]? = some (.error err)) :
    l.receiveAll (packets.eraseIdx i) = (l.receiveAll packets).eraseIdx i ∧
      l.afterAll (packets.eraseIdx i) = l.afterAll packets := by
  induction packets generalizing l i with
  | nil => cases h
  | cons p rest ih =>
      cases i with
      | zero =>
          obtain ⟨hk, ho⟩ := overflow_of_receive (Option.some.inj h)
          have hsame := receive_of_overflow hk ho
          rw [receiveAll, afterAll, hsame]
          exact ⟨rfl, rfl⟩
      | succ i =>
          obtain ⟨hanswers, hafter⟩ := ih h
          exact ⟨congrArg _ hanswers, hafter⟩

end LockedEngine

namespace LockFreeEngine

/-! ## One item -/

/-- A locked engine that has received as much. -/
structure InStep (f : LockFreeEngine) (l : LockedEngine) : Prop where
  ordering : f.ordering = l.ordering
  received : f.tally.received = l.tally.received

/-- Nothing but the receiving side differs. -/
def SameSending (f g : LockFreeEngine) : Prop :=
  g = { f with
    inbound := g.inbound
    draining := g.draining
    ordering := g.ordering
    published := g.published
    outcomes := g.outcomes
    tally := { f.tally with received := g.tally.received } }

/-- The engine after an item was worked off that was taken from the queue. -/
def workedOff (f : LockFreeEngine) (item : Inbound) (inbound : BoundedQueue Inbound) :
    LockFreeEngine :=
  let (result, g) := { f with inbound }.process item.work
  g.file item.ticket result

section Item

variable {f g e : LockFreeEngine} {l : LockedEngine} {p : Packet} {w : Work} {item : Inbound}

theorem SameSending.trans (h : f.SameSending g) (h' : g.SameSending e) : f.SameSending e := by
  refine Eq.trans h' ?_
  rw [h]

theorem sameSending_process (f : LockFreeEngine) (w : Work) : f.SameSending (f.process w).2 := by
  cases w with
  | data p =>
      simp only [process]
      split
      all_goals rfl
  | resync target forward =>
      cases forward
      all_goals rfl

theorem outcomes_process (f : LockFreeEngine) (w : Work) :
    (f.process w).2.outcomes = f.outcomes := by
  rw [process_frame]

theorem inbound_process (f : LockFreeEngine) (w : Work) :
    (f.process w).2.inbound = f.inbound := by
  rw [process_frame]

theorem draining_process (f : LockFreeEngine) (w : Work) :
    (f.process w).2.draining = f.draining := by
  rw [process_frame]

theorem InStep.process (h : f.InStep l) (hw : p.work? = some w) :
    (f.process w).1 = (l.receive p).1 ∧ (f.process w).2.InStep (l.receive p).2 := by
  rw [Packet.work?] at hw
  rw [LockedEngine.receive]
  cases hk : p.kind with
  | data =>
      rw [hk] at hw
      cases hw
      simp only [LockFreeEngine.process, LockedEngine.receiveData, h.ordering]
      cases l.ordering.receive p with
      | mk delivery b =>
          cases delivery with
          | duplicate => exact ⟨rfl, rfl, h.received⟩
          | overflow => exact ⟨rfl, rfl, h.received⟩
          | accepted released => exact ⟨rfl, rfl, congrArg (· + 1) h.received⟩
  | syn =>
      rw [hk] at hw
      cases hw
      simp only [LockedEngine.receiveSyn]
      cases p.hasFlag .ack with
      | true =>
          simp only [LockFreeEngine.process, h.ordering]
          exact ⟨rfl, rfl, h.received⟩
      | false =>
          simp only [LockFreeEngine.process, h.ordering]
          exact ⟨rfl, rfl, h.received⟩
  | ack | fin | rst =>
      rw [hk] at hw
      cases hw

/-- The position is published with the buffer, unless the buffer stays as it is. -/
theorem published_process (h : f.published = f.ordering.position) (w : Work) :
    (f.process w).2.published = (f.process w).2.ordering.position := by
  cases w with
  | data p =>
      simp only [process]
      split
      · rfl
      · next ordering ho =>
          have hsame := OrderingBuffer.receive_of_overflow (congrArg Prod.fst ho)
          rw [ho] at hsame
          show f.published = ordering.position
          rw [h, (Prod.mk.inj hsame).2]
      · rfl
  | resync target forward =>
      cases forward
      all_goals rfl

theorem InStep.workedOff (h : f.InStep l) (hw : p.work? = some item.work)
    (inbound : BoundedQueue Inbound) :
    (f.workedOff item inbound).InStep (l.receive p).2 ∧
      (f.workedOff item inbound).outcomes = f.outcomes ++ [(item.ticket, (l.receive p).1)] := by
  have hchanged : InStep { f with inbound } l := ⟨h.ordering, h.received⟩
  obtain ⟨hresult, hstep⟩ := hchanged.process hw
  refine ⟨⟨hstep.ordering, hstep.received⟩, ?_⟩
  show ({ f with inbound }.process item.work).2.outcomes ++
    [(item.ticket, ({ f with inbound }.process item.work).1)] = _
  rw [hresult, outcomes_process]

theorem inbound_workedOff (f : LockFreeEngine) (item : Inbound) (inbound : BoundedQueue Inbound) :
    (f.workedOff item inbound).inbound = inbound :=
  inbound_process { f with inbound } item.work

theorem draining_workedOff (f : LockFreeEngine) (item : Inbound)
    (inbound : BoundedQueue Inbound) : (f.workedOff item inbound).draining = f.draining :=
  draining_process { f with inbound } item.work

theorem published_workedOff (h : f.published = f.ordering.position) (item : Inbound)
    (inbound : BoundedQueue Inbound) :
    (f.workedOff item inbound).published = (f.workedOff item inbound).ordering.position :=
  published_process (f := { f with inbound }) h item.work

theorem sameSending_workedOff (f : LockFreeEngine) (item : Inbound)
    (inbound : BoundedQueue Inbound) : f.SameSending (f.workedOff item inbound) := by
  have hchanged : f.SameSending { f with inbound } := rfl
  exact (hchanged.trans (sameSending_process _ item.work)).trans rfl

end Item

/-! ## The queue -/

/-- What the holder of the flag leaves when the queue is empty. -/
structure DrainedTo (f g : LockFreeEngine) (l : LockedEngine) (items : List Inbound)
    (packets : List Packet) : Prop where
  inStep : g.InStep (l.afterAll packets)
  /-- Each item's result is filed under its ticket. -/
  outcomes : g.outcomes = f.outcomes ++ (items.map (·.ticket)).zip (l.receiveAll packets)
  inbound : g.inbound.Holds []
  draining : g.draining = f.draining
  published : f.published = f.ordering.position → g.published = g.ordering.position
  sending : f.SameSending g

/-- Draining the queue is receiving its packets one after the other. -/
theorem InStep.drain {f : LockFreeEngine} {l : LockedEngine} {items : List Inbound}
    {packets : List Packet} (h : f.InStep l) (hq : f.inbound.Holds items)
    (hp : packets.map Packet.work? = items.map (some ·.work)) :
    f.DrainedTo (drain items.length f) l items packets := by
  -- the items are worked off on an engine that each one changes, so it is general
  induction items generalizing f l packets with
  | nil =>
      have hnone := List.map_eq_nil_iff.mp hp
      subst hnone
      exact ⟨h, (List.append_nil _).symm, hq, rfl, id, rfl⟩
  | cons item items ih =>
      cases packets with
      | nil => cases hp
      | cons p packets =>
          obtain ⟨hw, hrest⟩ := List.cons.inj hp
          obtain ⟨hstep, hfiled⟩ := h.workedOff hw f.inbound.discard
          have hholds : (f.workedOff item f.inbound.discard).inbound.Holds items := by
            rw [inbound_workedOff]
            exact hq.discard
          have hdrained := ih hstep hholds hrest
          have hdrain : LockFreeEngine.drain (item :: items).length f =
              LockFreeEngine.drain items.length (f.workedOff item f.inbound.discard) := by
            rw [List.length_cons, LockFreeEngine.drain, hq.pop_cons]
            rfl
          rw [hdrain]
          constructor
          case inStep => exact hdrained.inStep
          case outcomes =>
            rw [hdrained.outcomes, hfiled, List.append_assoc]
            rfl
          case inbound => exact hdrained.inbound
          case draining => rw [hdrained.draining, draining_workedOff]
          case published => exact fun hpub => hdrained.published (published_workedOff hpub _ _)
          case sending => exact (sameSending_workedOff f item _).trans hdrained.sending

theorem InStep.receiveWork {f : LockFreeEngine} {l : LockedEngine} {items : List Inbound}
    {p : Packet} {w : Work} {packets : List Packet} (h : f.InStep l) (hfree : f.draining = false)
    (hq : f.inbound.Holds items) (hw : p.work? = some w)
    (hp : packets.map Packet.work? = items.map (some ·.work)) :
    ∃ g, f.receiveWork w = .done ((l.receive p).1, g) ∧
      f.DrainedTo g (l.receive p).2 items packets := by
  -- the flag is taken for the own packet and given back when the queue is empty
  let held : LockFreeEngine := { f with draining := true }
  have hacquire : f.acquire = .done held := by
    rw [acquire, hfree]
    rfl
  have hheld : held.InStep l := ⟨h.ordering, h.received⟩
  obtain ⟨hresult, hstep⟩ := hheld.process hw
  have hinbound : (held.process w).2.inbound.Holds items := by
    rw [inbound_process]
    exact hq
  have hdrained := hstep.drain hinbound hp
  have hqueue : (held.process w).2.drainQueue =
      LockFreeEngine.drain items.length (held.process w).2 := by
    rw [drainQueue, hinbound.size]
  refine ⟨(LockFreeEngine.drain items.length (held.process w).2).release, ?_, ?_⟩
  · rw [LockFreeEngine.receiveWork, hacquire, Attempt.map, ← hresult, ← hqueue]
  · constructor
    case inStep => exact ⟨hdrained.inStep.ordering, hdrained.inStep.received⟩
    case outcomes =>
      have houtcomes := hdrained.outcomes
      rw [outcomes_process] at houtcomes
      exact houtcomes
    case inbound => exact hdrained.inbound
    case draining => exact hfree.symm
    case published => exact fun hpub => hdrained.published (published_process (f := held) hpub w)
    case sending =>
      have hsame : f.SameSending held := rfl
      have hrelease : (LockFreeEngine.drain items.length (held.process w).2).SameSending
          (LockFreeEngine.drain items.length (held.process w).2).release := rfl
      exact ((hsame.trans (sameSending_process held w)).trans hdrained.sending).trans hrelease

/-! ## The steps of all callers -/

/-- Whether a ticket was given to nobody yet, or its result was collected. -/
def IsFresh (f : LockFreeEngine) (ticket : Nat) : Prop :=
  ticket ∉ f.outcomes.map (·.1) ∧ ticket ∉ f.inbound.toList.map (·.ticket)

/-- Nothing but the sending side differs. -/
structure SameReceiving (f g : LockFreeEngine) : Prop where
  inbound : g.inbound = f.inbound
  draining : g.draining = f.draining
  ordering : g.ordering = f.ordering
  published : g.published = f.published
  outcomes : g.outcomes = f.outcomes

/-- The states that an engine comes to, whatever its callers do and in whatever order. -/
inductive Reached : LockFreeEngine → Prop where
  | start {config : Reliability} {f : LockFreeEngine} : new config = .ok f → Reached f
  /-- Sending, acknowledging and scanning, as a whole or by single words. -/
  | sending {f g : LockFreeEngine} : Reached f → f.SameReceiving g → Reached g
  | acquire {f g : LockFreeEngine} : Reached f → f.acquire = .done g → Reached g
  /-- The holder of the flag works off its own packet. -/
  | process {f : LockFreeEngine} {p : Packet} {w : Work} :
      Reached f → f.draining = true → p.work? = some w → Reached (f.process w).2
  /-- The holder of the flag works off what is queued. -/
  | workOff {f : LockFreeEngine} {item : Inbound} {inbound : BoundedQueue Inbound} :
      Reached f → f.draining = true → f.inbound.pop = (some item, inbound) →
        Reached (f.workedOff item inbound)
  | release {f : LockFreeEngine} : Reached f → f.draining = true → Reached f.release
  | enqueue {f g : LockFreeEngine} {p : Packet} {item : Inbound} :
      Reached f → p.work? = some item.work → f.IsFresh item.ticket →
        f.enqueue item = (.ok (), g) → Reached g
  | collect {f : LockFreeEngine} (ticket : Nat) : Reached f → Reached (f.collect ticket).2

/-- What all of these states have in common. -/
structure Consistent (f : LockFreeEngine) : Prop where
  inbound : f.inbound.Holds f.inbound.toList
  works : ∀ item ∈ f.inbound.toList, ∃ p : Packet, p.work? = some item.work
  /-- No two results that are filed or will be have one ticket. -/
  tickets : (f.outcomes.map (·.1) ++ f.inbound.toList.map (·.ticket)).Nodup
  published : f.published = f.ordering.position

section Consistent

variable {f g : LockFreeEngine} {item : Inbound}

theorem consistent_of_new {config : Reliability} (h : new config = .ok f) : f.Consistent := by
  simp only [new, bind, Except.bind] at h
  split at h
  · cases h
  · next capacity hcapacity =>
      obtain ⟨hpower, htwo, -, hle⟩ := queueCapacity_spec hcapacity
      obtain ⟨q, hq, -, hholds⟩ := BoundedQueue.exists_holds_nil (α := Inbound)
        ⟨hpower, htwo, Nat.lt_of_le_of_lt hle (by decide)⟩
      split at h
      · cases h
      · rw [hq] at h
        cases h
        refine ⟨?_, ?_, ?_, rfl⟩
        · exact hholds.toList.symm ▸ hholds
        · intro item hitem
          exact absurd (hholds.toList ▸ hitem) List.not_mem_nil
        · show ([] ++ q.toList.map Inbound.ticket).Nodup
          rw [hholds.toList]
          exact List.nodup_nil

theorem Consistent.of_same (h : f.Consistent) (hinbound : g.inbound = f.inbound)
    (hordering : g.ordering = f.ordering) (hpublished : g.published = f.published)
    (houtcomes : g.outcomes = f.outcomes) : g.Consistent := by
  refine ⟨?_, ?_, ?_, ?_⟩
  · rw [hinbound]
    exact h.inbound
  · rw [hinbound]
    exact h.works
  · rw [hinbound, houtcomes]
    exact h.tickets
  · rw [hordering, hpublished]
    exact h.published

theorem Consistent.process (h : f.Consistent) (w : Work) : (f.process w).2.Consistent := by
  refine ⟨?_, ?_, ?_, published_process h.published w⟩
  · rw [inbound_process]
    exact h.inbound
  · rw [inbound_process]
    exact h.works
  · rw [inbound_process, outcomes_process]
    exact h.tickets

theorem Consistent.workedOff (h : f.Consistent) {inbound : BoundedQueue Inbound}
    (hpop : f.inbound.pop = (some item, inbound)) : (f.workedOff item inbound).Consistent := by
  obtain ⟨items, hitems⟩ : ∃ items, f.inbound.toList = item :: items ∧
      inbound = f.inbound.discard := by
    have hholds := h.inbound
    cases hlist : f.inbound.toList with
    | nil =>
        rw [hlist] at hholds
        rw [hholds.pop_nil] at hpop
        cases hpop
    | cons first items =>
        rw [hlist] at hholds
        rw [hholds.pop_cons] at hpop
        cases hpop
        exact ⟨items, rfl, rfl⟩
  obtain ⟨hlist, rfl⟩ := hitems
  have hholds := h.inbound
  have htickets := h.tickets
  rw [hlist] at hholds htickets
  have hrest := hholds.discard
  -- the ticket leaves the queue and joins the outcomes, so none is there twice
  have houtcomes : (f.workedOff item f.inbound.discard).outcomes.map (·.1) =
      f.outcomes.map (·.1) ++ [item.ticket] := by
    show (({ f with inbound := f.inbound.discard }.process item.work).2.outcomes ++ _).map _ = _
    rw [outcomes_process, List.map_append]
    rfl
  refine ⟨?_, ?_, ?_, published_workedOff h.published item _⟩
  · rw [inbound_workedOff, hrest.toList]
    exact hrest
  · rw [inbound_workedOff, hrest.toList]
    intro other hother
    exact h.works other (by rw [hlist]; exact List.mem_cons_of_mem _ hother)
  · rw [inbound_workedOff, hrest.toList, houtcomes, List.append_assoc]
    exact htickets

theorem Consistent.enqueue (h : f.Consistent) {p : Packet} (hw : p.work? = some item.work)
    (hfresh : f.IsFresh item.ticket) (heq : f.enqueue item = (.ok (), g)) : g.Consistent := by
  have hholds := h.inbound
  rcases Nat.lt_or_ge f.inbound.toList.length f.inbound.capacity with hlt | hge
  · rw [LockFreeEngine.enqueue, hholds.push_of_lt hlt] at heq
    cases heq
    have hstored := hholds.store hlt item
    refine ⟨?_, ?_, ?_, h.published⟩
    · rw [hstored.toList]
      exact hstored
    · rw [hstored.toList]
      intro other hother
      rcases List.mem_append.mp hother with hother | hother
      · exact h.works other hother
      · rw [List.mem_singleton.mp hother]
        exact ⟨p, hw⟩
    · rw [hstored.toList, List.map_append, ← List.append_assoc]
      refine List.nodup_append.mpr ⟨h.tickets, List.nodup_singleton _, ?_⟩
      intro ticket hticket other hother heq
      rw [heq, List.mem_singleton.mp hother] at hticket
      rcases List.mem_append.mp hticket with hmem | hmem
      · exact hfresh.1 hmem
      · exact hfresh.2 hmem
  · rw [LockFreeEngine.enqueue, hholds.push_of_full hge] at heq
    cases heq

theorem Consistent.collect (h : f.Consistent) (ticket : Nat) : (f.collect ticket).2.Consistent :=
  ⟨h.inbound, h.works,
    h.tickets.sublist (List.Sublist.append_right ((List.eraseP_sublist).map _) _), h.published⟩

/-- Every step keeps a state consistent, whether or not somebody holds the flag. -/
theorem Reached.consistent (h : f.Reached) : f.Consistent := by
  induction h with
  | start hnew => exact consistent_of_new hnew
  | sending _ hsame ih =>
      exact ih.of_same hsame.inbound hsame.ordering hsame.published hsame.outcomes
  | @acquire f g _ hacquire ih =>
      rw [LockFreeEngine.acquire] at hacquire
      split at hacquire
      · cases hacquire
      · cases hacquire
        exact ih.of_same rfl rfl rfl rfl
  | process _ _ _ ih => exact ih.process _
  | workOff _ _ hpop ih => exact ih.workedOff hpop
  | release _ _ ih => exact ih.of_same rfl rfl rfl rfl
  | enqueue _ hw hfresh heq ih => exact ih.enqueue hw hfresh heq
  | collect ticket _ ih => exact ih.collect ticket

end Consistent

/-! ## Main result -/

theorem filter_eq_singleton {α : Type} {entries : List (Nat × α)} {key : Nat} {value : α}
    (hd : (entries.map (·.1)).Nodup) (hm : (key, value) ∈ entries) :
    entries.filter (·.1 == key) = [(key, value)] := by
  induction entries with
  | nil => cases hm
  | cons entry rest ih =>
      rw [List.map_cons, List.nodup_cons] at hd
      rcases List.mem_cons.mp hm with rfl | hm
      · have hnone : rest.filter (·.1 == key) = [] := by
          refine List.filter_eq_nil_iff.mpr fun other hother hkey => hd.1 ?_
          exact List.mem_map.mpr ⟨other, hother, beq_iff_eq.mp hkey⟩
        rw [List.filter_cons, if_pos (beq_self_eq_true key), hnone]
      · have hne : ¬ (entry.1 == key) = true := fun hkey =>
          hd.1 (List.mem_map.mpr ⟨(key, value), hm, (beq_iff_eq.mp hkey).symm⟩)
        rw [List.filter_cons, if_neg hne, ih hd.2 hm]

/-- A caller with the packet `p` works off its own work and that of the packets queued, and leaves
the engine as `g`; the locked engine `l` receives them one after the other. -/
structure WorksOff (f : LockFreeEngine) (l : LockedEngine) (p : Packet) (w : Work)
    (packets : List Packet) (g : LockFreeEngine) : Prop where
  /-- The caller gets what it would have got alone. -/
  result : f.receiveWork w = .done ((l.receive p).1, g)
  /-- Under each ticket one result is filed, the one that its packet gets in its turn. -/
  filed : ∀ (i : Nat) (item : Inbound), f.inbound.toList[i]? = some item → ∃ answer,
    ((l.receive p).2.receiveAll packets)[i]? = some answer ∧
      g.outcomes.filter (·.1 == item.ticket) = [(item.ticket, answer)]
  /-- No other results are filed. -/
  outcomes : g.outcomes = f.outcomes ++
    (f.inbound.toList.map (·.ticket)).zip ((l.receive p).2.receiveAll packets)
  inbound : g.inbound.Holds []
  free : g.draining = false
  inStep : g.InStep (l.afterAll (p :: packets))
  published : g.published = g.ordering.position
  sending : f.SameSending g
  /-- Without a packet that is turned away, the caller's own included, everybody else gets the same
  and the buffer ends up the same. -/
  rejected : ∀ (i : Nat) err, (l.receiveAll (p :: packets))[i]? = some (.error err) →
    l.receiveAll ((p :: packets).eraseIdx i) = (l.receiveAll (p :: packets)).eraseIdx i ∧
      l.afterAll ((p :: packets).eraseIdx i) = l.afterAll (p :: packets)

theorem Consistent.worksOff {f : LockFreeEngine} (h : f.Consistent) (hfree : f.draining = false)
    {l : LockedEngine} (hl : f.InStep l) {p : Packet} {w : Work} (hw : p.work? = some w)
    {packets : List Packet}
    (hp : packets.map Packet.work? = f.inbound.toList.map (some ·.work)) :
    ∃ g, f.WorksOff l p w packets g := by
  obtain ⟨g, hresult, hdrained⟩ := hl.receiveWork hfree h.inbound hw hp
  have hlength : ((l.receive p).2.receiveAll packets).length = f.inbound.toList.length := by
    have hsame := congrArg List.length hp
    rw [List.length_map, List.length_map] at hsame
    rw [LockedEngine.length_receiveAll, hsame]
  have hkeys : (g.outcomes.map (·.1)).Nodup := by
    rw [hdrained.outcomes, List.map_append, List.map_fst_zip (by rw [List.length_map, hlength])]
    exact h.tickets
  refine ⟨g, hresult, fun i item hitem => ?_, hdrained.outcomes, hdrained.inbound,
    hdrained.draining.trans hfree, hdrained.inStep, hdrained.published h.published,
    hdrained.sending, fun i err herr => LockedEngine.receiveAll_eraseIdx herr⟩
  have hi : i < ((l.receive p).2.receiveAll packets).length := by
    rw [hlength]
    exact (List.getElem?_eq_some_iff.mp hitem).1
  refine ⟨_, List.getElem?_eq_getElem hi, filter_eq_singleton hkeys ?_⟩
  rw [hdrained.outcomes]
  refine List.mem_append_right _ (List.mem_of_getElem? (i := i) ?_)
  rw [List.getElem?_zip_eq_some]
  refine ⟨?_, List.getElem?_eq_getElem hi⟩
  rw [List.getElem?_map, hitem]
  rfl

/-- In every state that an engine comes to, and in any other that is consistent, a caller who finds
the flag free works off whatever is queued as if all packets came one after the other. -/
theorem worksOff_of_every_state {f : LockFreeEngine} (hfree : f.draining = false) :
    (f.Reached → f.Consistent) ∧
      (f.Consistent → ∀ l, f.InStep l → ∀ (p : Packet) w, p.work? = some w →
        ∀ packets : List Packet, packets.map Packet.work? = f.inbound.toList.map (some ·.work) →
          ∃ g, f.WorksOff l p w packets g) :=
  ⟨Reached.consistent, fun h _ hl _ _ hw _ hp => h.worksOff hfree hl hw hp⟩

/-- Settings with room for one packet ahead of its turn. -/
def oneAhead : Reliability where
  receiveCapacity := 1

/-- Packets of two other callers: there is no room for the first one, and the second one fills the
gap in front of what is held by then. -/
def othersPackets : List Packet := [.data ⟨3⟩ [7], .data ⟨1⟩ [8]]

theorem worksOff_of_othersPackets :
    ∃ f : LockFreeEngine, f.draining = false ∧ f.Reached ∧ f.Consistent ∧
      f.inbound.toList = [⟨.data (.data ⟨3⟩ [7]), 5⟩, ⟨.data (.data ⟨1⟩ [8]), 6⟩] ∧
      ∃ g, f.WorksOff (.start oneAhead) (.data ⟨2⟩ [6]) (.data (.data ⟨2⟩ [6])) othersPackets g ∧
        g.outcomes = [(5, .error (.bufferOverflow 1)),
          (6, .ok [.data ⟨1⟩ [8], .data ⟨2⟩ [6]])] := by
  obtain ⟨f, hnew⟩ : ∃ f, new oneAhead = .ok f := ⟨_, rfl⟩
  let once := (f.enqueue ⟨.data (.data ⟨3⟩ [7]), 5⟩).2
  let twice := (once.enqueue ⟨.data (.data ⟨1⟩ [8]), 6⟩).2
  have honce : once.Reached := by
    refine .enqueue (p := .data ⟨3⟩ [7]) (.start hnew) rfl ⟨?_, ?_⟩ (Prod.ext ?_ rfl)
    all_goals
      cases hnew
      decide +kernel
  have htwice : twice.Reached := by
    refine .enqueue (p := .data ⟨1⟩ [8]) honce rfl ⟨?_, ?_⟩ (Prod.ext ?_ rfl)
    all_goals
      cases hnew
      decide +kernel
  have hqueue : twice.inbound.toList =
      [⟨.data (.data ⟨3⟩ [7]), 5⟩, ⟨.data (.data ⟨1⟩ [8]), 6⟩] := by
    cases hnew
    decide +kernel
  have hstep : twice.InStep (.start oneAhead) := by
    cases hnew
    exact ⟨rfl, rfl⟩
  have hfree : twice.draining = false := by
    cases hnew
    rfl
  have hempty : twice.outcomes = [] := by
    cases hnew
    rfl
  obtain ⟨hreached, hdrains⟩ := worksOff_of_every_state hfree
  have hconsistent := hreached htwice
  obtain ⟨g, hg⟩ := hdrains hconsistent _ hstep (.data ⟨2⟩ [6]) _ rfl othersPackets
    (by rw [hqueue]; rfl)
  refine ⟨twice, hfree, htwice, hconsistent, hqueue, g, hg, ?_⟩
  rw [hg.outcomes, hqueue, hempty]
  decide +kernel

end LockFreeEngine

end ReliableDatagram
