/-
Association lists in ascending order of their keys.

Every key occurs once at most, so looking up a key answers the value that
was set for it last.  Setting a key walks past the smaller keys and puts the pair
there; removing one takes out every pair of that key.

The order makes a list the only one with its pairs.  Slot tables and the
connections of end points are such lists: two of them that answer every lookup
alike are equal, and a walk from front to back is a walk in the order of the keys.
Whether the keys of a list do ascend is nothing that the list carries with it; it
is an invariant of those who use it.
-/

namespace ReliableDatagram.Assoc

variable {κ α : Type} [DecidableEq κ]

/-- Sets the value of a key, at the key's place in the order. -/
def insert [LT κ] [DecidableLT κ] (key : κ) (value : α) : List (κ × α) → List (κ × α)
  | [] => [(key, value)]
  | entry :: rest =>
    if key = entry.1 then (key, value) :: rest
    else if key < entry.1 then (key, value) :: entry :: rest
    else entry :: insert key value rest

def erase (key : κ) (entries : List (κ × α)) : List (κ × α) :=
  entries.filter fun entry => entry.1 != key

theorem lookup_cons_eq_ite (key : κ) (entry : κ × α) (rest : List (κ × α)) :
    (entry :: rest).lookup key = if key = entry.1 then some entry.2 else rest.lookup key := by
  rw [List.lookup_cons]
  by_cases h : key = entry.1
  · simp [h]
  · simp [h, beq_eq_false_iff_ne.mpr h]

theorem lookup_insert_self [LT κ] [DecidableLT κ] (key : κ) (value : α) (entries : List (κ × α)) :
    (insert key value entries).lookup key = some value := by
  induction entries with
  | nil => simp [insert, lookup_cons_eq_ite]
  | cons entry rest ih =>
    unfold insert
    split
    · simp [lookup_cons_eq_ite]
    · split
      · simp [lookup_cons_eq_ite]
      · simp [lookup_cons_eq_ite, *]

theorem lookup_insert_of_ne [LT κ] [DecidableLT κ] {key other : κ} (h : other ≠ key)
    (value : α) (entries : List (κ × α)) :
    (insert key value entries).lookup other = entries.lookup other := by
  induction entries with
  | nil => simp [insert, lookup_cons_eq_ite, h]
  | cons entry rest ih =>
    unfold insert
    split
    · rename_i heq
      simp [lookup_cons_eq_ite, ← heq, h]
    · split
      · rw [lookup_cons_eq_ite, if_neg h]
      · rw [lookup_cons_eq_ite, lookup_cons_eq_ite, ih]

theorem lookup_erase_self (key : κ) (entries : List (κ × α)) :
    (erase key entries).lookup key = none := by
  induction entries with
  | nil => rfl
  | cons entry rest ih =>
    by_cases h : entry.1 = key
    · simpa [erase, h] using ih
    · have : (entry.1 != key) = true := bne_iff_ne.mpr h
      simp only [erase, List.filter_cons, this, if_true]
      rw [lookup_cons_eq_ite, if_neg (Ne.symm h)]
      exact ih

theorem lookup_erase_of_ne {key other : κ} (h : other ≠ key) (entries : List (κ × α)) :
    (erase key entries).lookup other = entries.lookup other := by
  induction entries with
  | nil => rfl
  | cons entry rest ih =>
    by_cases hk : entry.1 = key
    · rw [lookup_cons_eq_ite, if_neg (hk ▸ h)]
      simpa [erase, hk] using ih
    · have : (entry.1 != key) = true := bne_iff_ne.mpr hk
      simp only [erase, List.filter_cons, this, if_true]
      rw [lookup_cons_eq_ite, lookup_cons_eq_ite]
      simp only [erase] at ih
      rw [ih]

end ReliableDatagram.Assoc
