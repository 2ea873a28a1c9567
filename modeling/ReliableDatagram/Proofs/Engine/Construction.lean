/-
The settings that an engine can be had for.

Settings that pass their checks have a power of two wherever one is asked for.
An upper bound is not among the checks, and each kind of engine has one of its
own: a tracker numbers its slots by 32-bit words, and the queue of the
lock-free engine needs a power of two within 64 bits that holds the ordering
buffer.  Beyond its bound an engine meets a fault where it is built.

The bounds differ between the kinds, so there are settings that only one of them
can be built for.  Within both bounds what remains is memory: the tables are asked
for one after the other, and the first that cannot be had is the fault.  Whether
there is room is a condition on sizes alone, with the bytes of a cell as a rough
figure; the results name the condition and do not depend on the figure.

Main statement: within its bound, and with room for its tables, there is an
engine; beyond the bound there is the fault.
-/
import ReliableDatagram.Proofs.Engine.Equivalence

namespace ReliableDatagram

namespace Reliability

/-- The fault of an engine whose tables are beyond its words. -/
def rangeFault? (c : Reliability) : EngineKind → Option Fault
  | .locked => if 0x100000000 < c.tableSize then some .trackerRange else none
  | .lockFree => if 0x8000000000000000 < c.receiveCapacity then some .wordOverflow else none

/-- The cells of the tables that an engine asks for from the start. -/
def requested (c : Reliability) : EngineKind → List Nat
  | .locked => []
  | .lockFree => [c.tableSize, max 2 (powerOfTwoAbove c.receiveCapacity)]

/-- Whether these tables can be had. -/
def HasRoom (c : Reliability) (kind : EngineKind) : Prop :=
  ∀ cells ∈ c.requested kind, Allocation.fits (cells * Allocation.cellSize) = true

instance (c : Reliability) (kind : EngineKind) : Decidable (c.HasRoom kind) :=
  inferInstanceAs (Decidable (∀ cells ∈ c.requested kind,
    Allocation.fits (cells * Allocation.cellSize) = true))

end Reliability

theorem Allocation.request_eq_ok_iff {cells : Nat} :
    request cells = .ok () ↔ fits (cells * cellSize) = true := by
  rw [request]
  split
  · next hfits => exact iff_of_true rfl hfits
  · next hfits => exact iff_of_false nofun hfits

/-! ## The locked engine -/

namespace LockedEngine

variable {config : Reliability}

theorem new_of_gt (h : config.Valid) (hs : 0x100000000 < config.tableSize) :
    new config = .error .trackerRange := by
  simp only [new, Tracker.new, h.isPowerOfTwo_tableSize, not_true_eq_false, if_false, hs, if_true]
  rfl

end LockedEngine

/-! ## The lock-free engine -/

namespace LockFreeEngine

variable {config : Reliability}

/-- The room in the queue is a power of two within 64 bits. -/
theorem queueCapacity_spec {n capacity : Nat} (h : queueCapacity n = .ok capacity) :
    isPowerOfTwo capacity = true ∧ 2 ≤ capacity ∧ n ≤ capacity ∧
      capacity ≤ 0x8000000000000000 := by
  rw [queueCapacity] at h
  split at h
  · cases h
  · next hn =>
      cases h
      refine ⟨isPowerOfTwo_queueCapacity n, Nat.le_max_left _ _, ?_, ?_⟩
      · exact Nat.le_trans (le_powerOfTwoAbove n) (Nat.le_max_right _ _)
      · have habove : powerOfTwoAbove n ≤ 0x8000000000000000 :=
          powerOfTwoAbove_le (by decide) (Nat.le_of_not_lt hn)
        exact Nat.max_le.mpr ⟨by decide, habove⟩

theorem queueCapacity_of_le {n : Nat} (h : n ≤ 0x8000000000000000) :
    queueCapacity n = .ok (max 2 (powerOfTwoAbove n)) := by
  rw [queueCapacity, if_neg (Nat.not_lt.mpr h)]

theorem allocate_of_gt (hc : 0x8000000000000000 < config.receiveCapacity) :
    allocate config = .error .wordOverflow := by
  have hcap : queueCapacity config.receiveCapacity = .error .wordOverflow := by
    rw [queueCapacity, if_pos hc]
  rw [allocate, hcap]
  rfl

/-- Two requests and then the engine. -/
theorem allocate_eq_ok_iff (hc : config.receiveCapacity ≤ 0x8000000000000000)
    {f : LockFreeEngine} :
    allocate config = .ok f ↔ config.HasRoom .lockFree ∧ new config = .ok f := by
  have hroom : config.HasRoom .lockFree ↔ Allocation.request config.tableSize = .ok () ∧
      Allocation.request (max 2 (powerOfTwoAbove config.receiveCapacity)) = .ok () := by
    simp only [Allocation.request_eq_ok_iff, Reliability.HasRoom, Reliability.requested,
      List.forall_mem_cons, List.not_mem_nil, false_imp_iff, implies_true, and_true]
  rw [hroom, allocate, queueCapacity_of_le hc]
  cases ht : Allocation.request config.tableSize with
  | error fault =>
      refine iff_of_false ?_ ?_
      · intro hf
        cases hf
      · rintro ⟨⟨hok, -⟩, -⟩
        cases hok
  | ok =>
      cases hq : Allocation.request (max 2 (powerOfTwoAbove config.receiveCapacity)) with
      | error fault =>
          refine iff_of_false ?_ ?_
          · intro hf
            simp only [bind, Except.bind, hq] at hf
            cases hf
          · rintro ⟨⟨-, hok⟩, -⟩
            cases hok
      | ok => simp only [bind, Except.bind, hq, true_and, and_self]

end LockFreeEngine

/-! ## Main result -/

namespace Engine

variable {config : Reliability}

theorem new_locked (h : config.Valid) :
    new .locked config = ((LockedEngine.new config).mapError .fault).map .locked := by
  have hd : config.defect? = none := h
  simp only [new, hd]

theorem new_lockFree (h : config.Valid) :
    new .lockFree config = ((LockFreeEngine.allocate config).mapError .fault).map .lockFree := by
  have hd : config.defect? = none := h
  simp only [new, hd]

/-- What becomes of settings that pass their checks.  The table has a power of two of slots, and
a queue that is within 64 bits has a capacity fit for it.  An engine beyond its bound meets the
fault; within the bound there is an engine exactly if there is room for its tables. -/
theorem new_of_valid (h : config.Valid) :
    isPowerOfTwo config.tableSize = true ∧
      (∀ capacity, LockFreeEngine.queueCapacity config.receiveCapacity = .ok capacity →
        isPowerOfTwo capacity = true ∧ 2 ≤ capacity ∧ config.receiveCapacity ≤ capacity ∧
          capacity ≤ 0x8000000000000000) ∧
      ∀ kind,
        (∀ fault, config.rangeFault? kind = some fault →
          new kind config = .error (.fault fault)) ∧
        (config.rangeFault? kind = none →
          ((∃ e, new kind config = .ok e) ↔ config.HasRoom kind)) := by
  refine ⟨h.isPowerOfTwo_tableSize, fun capacity => LockFreeEngine.queueCapacity_spec, ?_⟩
  intro kind
  cases kind with
  | locked =>
      rw [new_locked h, Reliability.rangeFault?]
      split
      · next hs =>
          rw [LockedEngine.new_of_gt h hs]
          refine ⟨?_, nofun⟩
          intro fault hf
          cases hf
          rfl
      · next hs =>
          rw [LockedEngine.new_eq_start h (Nat.le_of_not_lt hs)]
          exact ⟨nofun, fun _ => iff_of_true ⟨_, rfl⟩ nofun⟩
  | lockFree =>
      rw [new_lockFree h, Reliability.rangeFault?]
      split
      · next hc =>
          rw [LockFreeEngine.allocate_of_gt hc]
          refine ⟨?_, nofun⟩
          intro fault hf
          cases hf
          rfl
      · next hc =>
          have hle := Nat.le_of_not_lt hc
          -- within the bound only room for slots and cells can be lacking
          obtain ⟨f, hnew, -⟩ := LockFreeEngine.exists_new h hle
          refine ⟨nofun, fun _ => ⟨?_, ?_⟩⟩
          · rintro ⟨e, he⟩
            cases hf : LockFreeEngine.allocate config with
            | error fault =>
                rw [hf] at he
                cases he
            | ok f => exact ((LockFreeEngine.allocate_eq_ok_iff hle).mp hf).1
          · intro hroom
            rw [(LockFreeEngine.allocate_eq_ok_iff hle).mpr ⟨hroom, hnew⟩]
            exact ⟨_, rfl⟩

/-- Settings with twice as many slots as there are numbers. -/
def hugeTable : Reliability where
  tableSize := 0x200000000

/-- They pass every check.  A lock-free engine can be had for them, but no locked one. -/
theorem new_hugeTable :
    hugeTable.Valid ∧ new .locked hugeTable = .error (.fault .trackerRange) ∧
      ∃ e, new .lockFree hugeTable = .ok e := by
  have hvalid : hugeTable.Valid := by decide
  obtain ⟨-, -, hkinds⟩ := new_of_valid hvalid
  have hroom : hugeTable.HasRoom .lockFree := by decide +kernel
  exact ⟨hvalid, (hkinds .locked).1 _ rfl, ((hkinds .lockFree).2 rfl).mpr hroom⟩

/-- One packet more than half the words: there is no power of two left for the queue. -/
example : Reliability.Valid { receiveCapacity := 0x8000000000000001 } ∧
    new .lockFree { receiveCapacity := 0x8000000000000001 } = .error (.fault .wordOverflow) :=
  ⟨by decide, rfl⟩

end Engine

end ReliableDatagram
