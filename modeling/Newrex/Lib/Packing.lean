import Mathlib.Algebra.GroupWithZero.Nat
import Mathlib.Order.Interval.Finset.Nat
import Mathlib.Data.List.Pairwise

/-!
# Intervals that do not overlap

Intervals of natural numbers, each given by its start and its length. Intervals that do not
overlap and lie in a range have at most the length of the range together (`Apart.sum_le`).
-/

namespace Packing

/-- No two of the intervals overlap. -/
def Apart (l : List (Nat × Nat)) : Prop :=
  l.Pairwise fun i j => i.1 + i.2 ≤ j.1 ∨ j.1 + j.2 ≤ i.1

/-- The numbers in the intervals. -/
def points (l : List (Nat × Nat)) : Finset Nat :=
  l.foldr (fun i s => Finset.Ico i.1 (i.1 + i.2) ∪ s) ∅

variable {l : List (Nat × Nat)}

theorem mem_points {x : Nat} : x ∈ points l ↔ ∃ i, i ∈ l ∧ i.1 ≤ x ∧ x < i.1 + i.2 := by
  induction l with
  | nil => simp [points]
  | cons i l ih =>
    have hcons : points (i :: l) = Finset.Ico i.1 (i.1 + i.2) ∪ points l := rfl
    rw [hcons, Finset.mem_union, Finset.mem_Ico, ih]
    simp

theorem Apart.card_points (h : Apart l) : (points l).card = (l.map Prod.snd).sum := by
  induction l with
  | nil => rfl
  | cons i l ih =>
    have hcons : points (i :: l) = Finset.Ico i.1 (i.1 + i.2) ∪ points l := rfl
    obtain ⟨hhead, htail⟩ := List.pairwise_cons.mp h
    have hdisjoint : Disjoint (Finset.Ico i.1 (i.1 + i.2)) (points l) := by
      rw [Finset.disjoint_left]
      intro x hx hx'
      obtain ⟨j, hj, hlow, hhigh⟩ := mem_points.mp hx'
      have := hhead j hj
      rw [Finset.mem_Ico] at hx
      omega
    rw [hcons, Finset.card_union_of_disjoint hdisjoint, ih htail, Nat.card_Ico, List.map_cons,
      List.sum_cons]
    omega

theorem Apart.sum_le (h : Apart l) {lo hi : Nat} (hin : ∀ i, i ∈ l → lo ≤ i.1 ∧ i.1 + i.2 ≤ hi) :
    (l.map Prod.snd).sum ≤ hi - lo := by
  have hsub : points l ⊆ Finset.Ico lo hi := by
    intro x hx
    obtain ⟨i, hi, hlow, hhigh⟩ := mem_points.mp hx
    have := hin i hi
    rw [Finset.mem_Ico]
    omega
  rw [← h.card_points, ← Nat.card_Ico]
  exact Finset.card_le_card hsub

end Packing
