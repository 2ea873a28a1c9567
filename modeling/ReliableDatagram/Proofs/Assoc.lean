/-
Association lists whose keys ascend.

In such a list a key is found with a value exactly if the pair is an element,
so what is found tells the list, and setting or removing a key keeps the
order.  As a collection of pairs a list with a new key is the old one and the
new pair.

Two kinds of lemma stand here, for two kinds of reader.  Slot tables ask what is
found: setting or removing a key is described by what every lookup answers
afterwards, and since the order and the lookups tell the list, equations between
tables are proved by comparing lookups.  Trackers and counts ask what is in the
list: setting or removing a key is described up to permutation, since the tracker
keeps its packets in another order than the table keeps its slots.

The inductions are on the list.  The order is needed only where an entry has to be
ruled out further down, so lemmas that follow the recursion of `insert` alone are
stated without it.
-/
import ReliableDatagram.Assoc

namespace ReliableDatagram.Assoc

variable {α : Type}

/-- Keys in strictly ascending order. -/
def Ascending (entries : List (Nat × α)) : Prop := entries.Pairwise (·.1 < ·.1)

theorem lookup_eq_some_iff {entries : List (Nat × α)} (h : Ascending entries) {key : Nat}
    {value : α} : entries.lookup key = some value ↔ (key, value) ∈ entries := by
  induction entries with
  | nil => simp
  | cons entry rest ih =>
      obtain ⟨hlt, hrest⟩ := List.pairwise_cons.mp h
      rw [lookup_cons_eq_ite]
      by_cases hk : key = entry.1
      · rw [if_pos hk]
        constructor
        · intro hv
          obtain ⟨k, v⟩ := entry
          simp only [Option.some.injEq] at hv
          simp only at hk
          exact hk ▸ hv ▸ List.mem_cons_self
        · intro hm
          rcases List.mem_cons.mp hm with rfl | hm
          · rfl
          · exact absurd (hlt _ hm) (by simp only [hk]; omega)
      · rw [if_neg hk, ih hrest]
        constructor
        · exact List.mem_cons_of_mem _
        · intro hm
          rcases List.mem_cons.mp hm with rfl | hm
          · exact absurd rfl hk
          · exact hm

theorem Ascending.nodup {entries : List (Nat × α)} (h : Ascending entries) : entries.Nodup :=
  h.imp fun hlt heq => Nat.ne_of_lt hlt (congrArg Prod.fst heq)

theorem Ascending.eq_of_mem_iff {entries others : List (Nat × α)} (h : Ascending entries)
    (ho : Ascending others) (hmem : ∀ entry, entry ∈ entries ↔ entry ∈ others) :
    entries = others := by
  have hperm : entries.Perm others := (List.perm_ext_iff_of_nodup h.nodup ho.nodup).mpr hmem
  refine hperm.eq_of_pairwise ?_ h ho
  intro a b _ _ hab hba
  exact absurd hab (Nat.lt_asymm hba)

/-- The order and what is found under each key tell the list. -/
theorem Ascending.eq_of_lookup {entries others : List (Nat × α)} (h : Ascending entries)
    (ho : Ascending others) (hlookup : ∀ key, entries.lookup key = others.lookup key) :
    entries = others := by
  refine h.eq_of_mem_iff ho ?_
  intro entry
  rw [← lookup_eq_some_iff h, ← lookup_eq_some_iff ho, hlookup]

/-- Looking up one key after the other finds every pair, if no key is beyond the last one. -/
theorem Ascending.filterMap_range {entries : List (Nat × α)} (h : Ascending entries) {bound : Nat}
    (hbound : ∀ entry ∈ entries, entry.1 < bound) :
    (List.range bound).filterMap (fun key => (entries.lookup key).map (key, ·)) = entries := by
  refine Ascending.eq_of_mem_iff ?_ h ?_
  · refine List.pairwise_lt_range.filterMap _ ?_
    intro key other hlt entry hentry last hlast
    obtain ⟨_, -, rfl⟩ := Option.map_eq_some_iff.mp hentry
    obtain ⟨_, -, rfl⟩ := Option.map_eq_some_iff.mp hlast
    exact hlt
  · rintro ⟨key, value⟩
    simp only [List.mem_filterMap, List.mem_range, Option.map_eq_some_iff, Prod.mk.injEq]
    constructor
    · rintro ⟨_, -, _, hfound, rfl, rfl⟩
      exact (lookup_eq_some_iff h).mp hfound
    · intro hmem
      exact ⟨key, hbound _ hmem, value, (lookup_eq_some_iff h).mpr hmem, rfl, rfl⟩

theorem lookup_map {β : Type} (g : Nat → α → β) (entries : List (Nat × α)) (key : Nat) :
    (entries.map fun entry => (entry.1, g entry.1 entry.2)).lookup key =
      (entries.lookup key).map (g key) := by
  induction entries with
  | nil => rfl
  | cons entry rest ih =>
      rw [List.map_cons, lookup_cons_eq_ite, lookup_cons_eq_ite, ih]
      split
      · next heq => rw [heq]; rfl
      · rfl

/-! ## Setting a key -/

theorem lookup_insert (key : Nat) (value : α) (entries : List (Nat × α)) (other : Nat) :
    (insert key value entries).lookup other =
      if other = key then some value else entries.lookup other := by
  split
  · next heq => rw [heq, lookup_insert_self]
  · next hne => rw [lookup_insert_of_ne hne]

theorem mem_insert {κ : Type} [DecidableEq κ] [LT κ] [DecidableLT κ] {key : κ} {value : α}
    {entries : List (κ × α)} {entry : κ × α} (h : entry ∈ insert key value entries) :
    entry = (key, value) ∨ entry ∈ entries := by
  induction entries with
  | nil => exact Or.inl (List.mem_singleton.mp h)
  | cons head rest ih =>
      unfold insert at h
      split at h
      · rcases List.mem_cons.mp h with h | h
        · exact Or.inl h
        · exact Or.inr (List.mem_cons_of_mem _ h)
      · split at h
        · exact List.mem_cons.mp h
        · rcases List.mem_cons.mp h with h | h
          · exact Or.inr (h ▸ List.mem_cons_self)
          · exact (ih h).imp_right (List.mem_cons_of_mem _)

theorem Ascending.insert {entries : List (Nat × α)} (h : Ascending entries) (key : Nat)
    (value : α) : Ascending (insert key value entries) := by
  induction entries with
  | nil => exact List.pairwise_singleton _ _
  | cons head rest ih =>
      obtain ⟨hlt, hrest⟩ := List.pairwise_cons.mp h
      unfold Assoc.insert
      split
      · rename_i hk
        exact List.pairwise_cons.mpr ⟨fun e he => hk ▸ hlt e he, hrest⟩
      · split
        · rename_i _ hk
          refine List.pairwise_cons.mpr ⟨?_, h⟩
          intro e he
          rcases List.mem_cons.mp he with rfl | he
          · exact hk
          · exact Nat.lt_trans hk (hlt e he)
        · rename_i hne hk
          refine List.pairwise_cons.mpr ⟨?_, ih hrest⟩
          intro e he
          rcases mem_insert he with rfl | he
          · simp only
            omega
          · exact hlt e he

theorem insert_perm {key : Nat} {entries : List (Nat × α)} (value : α)
    (h : ∀ entry ∈ entries, entry.1 ≠ key) :
    (insert key value entries).Perm ((key, value) :: entries) := by
  induction entries with
  | nil => exact .refl _
  | cons head rest ih =>
      unfold insert
      rw [if_neg (Ne.symm (h head List.mem_cons_self))]
      split
      · exact .refl _
      · exact ((ih fun e he => h e (List.mem_cons_of_mem _ he)).cons head).trans
          (.swap _ _ _)

theorem insert_eq_self {key : Nat} {value : α} {entries : List (Nat × α)}
    (h : Ascending entries) (hm : (key, value) ∈ entries) :
    insert key value entries = entries := by
  induction entries with
  | nil => cases hm
  | cons head rest ih =>
      obtain ⟨hlt, hrest⟩ := List.pairwise_cons.mp h
      unfold insert
      rcases List.mem_cons.mp hm with rfl | hm
      · rw [if_pos rfl]
      · have := hlt _ hm
        simp only at this
        rw [if_neg (by omega), if_neg (by omega), ih hrest hm]

theorem insert_insert (key : Nat) (first second : α) (entries : List (Nat × α)) :
    insert key second (insert key first entries) = insert key second entries := by
  induction entries with
  | nil => simp [insert]
  | cons head rest ih =>
      by_cases hk : key = head.1
      · simp [insert, hk]
      · by_cases hlt : key < head.1
        · simp [insert, hk, hlt]
        · simp [insert, hk, hlt, ih]

/-! ## Removing a key -/

theorem lookup_erase (key : Nat) (entries : List (Nat × α)) (other : Nat) :
    (erase key entries).lookup other = if other = key then none else entries.lookup other := by
  split
  · next heq => rw [heq, lookup_erase_self]
  · next hne => rw [lookup_erase_of_ne hne]

/-- What is found under a key is all that removing the key takes away, if no key occurs twice. -/
theorem perm_cons_erase {κ : Type} [DecidableEq κ] {key : κ} {value : α} {entries : List (κ × α)}
    (hd : (entries.map Prod.fst).Nodup) (h : entries.lookup key = some value) :
    entries.Perm ((key, value) :: erase key entries) := by
  obtain ⟨front, back, rfl, hfront⟩ := List.lookup_eq_some_iff.mp h
  have hback : ∀ entry ∈ back, entry.1 ≠ key := by
    rw [List.map_append, List.map_cons, List.nodup_append] at hd
    intro entry hm heq
    exact (List.nodup_cons.mp hd.2.1).1 (List.mem_map.mpr ⟨entry, hm, heq⟩)
  have herase : erase key (front ++ (key, value) :: back) = front ++ back := by
    rw [erase, List.filter_append, List.filter_cons_of_neg (by simp)]
    rw [List.filter_eq_self.mpr, List.filter_eq_self.mpr]
    · exact fun entry hm => bne_iff_ne.mpr (hback entry hm)
    · intro entry hm
      have := hfront entry hm
      exact bne_iff_ne.mpr fun heq => by simp [heq] at this
  rw [herase]
  exact List.perm_middle

theorem Ascending.erase {entries : List (Nat × α)} (h : Ascending entries) (key : Nat) :
    Ascending (erase key entries) := h.filter _

theorem erase_insert (key : Nat) (value : α) (entries : List (Nat × α)) :
    erase key (insert key value entries) = erase key entries := by
  induction entries with
  | nil => simp [insert, erase]
  | cons head rest ih =>
      simp only [erase] at ih
      unfold insert
      split
      · rename_i hk
        simp [erase, ← hk]
      · split
        · simp [erase]
        · simp only [erase, List.filter_cons, ih]

end ReliableDatagram.Assoc
