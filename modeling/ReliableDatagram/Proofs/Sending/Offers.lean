/-
The order of offers.

Offers are sorted by the distance of their numbers.  Offers of different
packets are at different distances, so the sorted list depends only on which
offers there are, and not on the order in which they were found.

This is what lets a table be walked in slot order where a tracker lists its
packets by the time of recording: both sort the same offers.  The comparison is a
linear order on distances, whatever it is worth as an order on numbers, and
sorting asks for no more than that.
-/
import Mathlib.Data.List.Pairwise
import ReliableDatagram.Proofs.Serial
import ReliableDatagram.Sending.Unacked

namespace ReliableDatagram.Offer

theorem inOrder_perm (highest : Option SeqNum) (offers : List Offer) :
    (inOrder highest offers).Perm offers := by
  cases highest with
  | none => exact .refl _
  | some h => exact List.mergeSort_perm _ _

theorem pairwise_inOrder (h : SeqNum) (offers : List Offer) :
    (inOrder (some h) offers).Pairwise fun a b =>
      a.packet.seq.distance h.next ≤ b.packet.seq.distance h.next := by
  have hs := @List.pairwise_mergeSort Offer
    (fun a b => decide (a.packet.seq.distance h.next ≤ b.packet.seq.distance h.next))
    (by simp only [decide_eq_true_eq]; omega)
    (by simp only [Bool.or_eq_true, decide_eq_true_eq]; omega) offers
  exact hs.imp of_decide_eq_true

/-- The same offers, found in any order, are offered in the same order. -/
theorem inOrder_eq_of_perm (h : SeqNum) {found found' : List Offer} (hp : found.Perm found')
    (hd : ∀ a ∈ found, ∀ b ∈ found, a.packet.seq = b.packet.seq → a = b) :
    inOrder (some h) found = inOrder (some h) found' := by
  refine List.Perm.eq_of_pairwise ?_ (pairwise_inOrder h found) (pairwise_inOrder h found') ?_
  · intro a b ha hb hab hba
    have ha' := (inOrder_perm (some h) found).mem_iff.mp ha
    have hb' := hp.mem_iff.mpr ((inOrder_perm (some h) found').mem_iff.mp hb)
    exact hd a ha' b hb' (SeqNum.distance_inj (Int.le_antisymm hab hba))
  · exact (inOrder_perm _ _).trans (hp.trans (inOrder_perm _ _).symm)

end ReliableDatagram.Offer
