import Mathlib.Data.List.Range
import Mathlib.Data.List.FinRange
import Mathlib.Data.Fin.Basic

/-!
# First-match search

A `for` loop that leaves at the first index with a result is `findSome?` over
`List.range`, or `find?` over `List.finRange`. The lemmas say which index such
a loop stops at.
-/

namespace Search

theorem findSome_range_eq_some {α : Type} {f : Nat → Option α} {n : Nat} {b : α} :
    (List.range n).findSome? f = some b ↔ ∃ i, i < n ∧ f i = some b ∧ ∀ j, j < i → f j = none := by
  induction n with
  | zero => simp
  | succ n ih =>
    rw [List.range_succ, List.findSome?_append]
    cases hpre : (List.range n).findSome? f with
    | some c =>
      rw [hpre] at ih
      simp only [Option.some_or]
      constructor
      · intro h
        obtain ⟨i, hi, hfi, hmin⟩ := ih.mp h
        exact ⟨i, Nat.lt_succ_of_lt hi, hfi, hmin⟩
      · rintro ⟨i, hi, hfi, hmin⟩
        by_cases hin : i = n
        · subst hin
          obtain ⟨j, hj, hfj⟩ := List.exists_of_findSome?_eq_some hpre
          rw [hmin j (List.mem_range.mp hj)] at hfj
          exact absurd hfj (by simp)
        · exact ih.mpr ⟨i, by omega, hfi, hmin⟩
    | none =>
      have hnone : ∀ j, j < n → f j = none := fun j hj =>
        List.findSome?_eq_none_iff.mp hpre j (List.mem_range.mpr hj)
      simp only [Option.none_or, List.findSome?_cons, List.findSome?_nil]
      constructor
      · intro h
        cases hfn : f n with
        | none => rw [hfn] at h; exact absurd h (by simp)
        | some c =>
          rw [hfn] at h
          exact ⟨n, Nat.lt_succ_self n, by rw [hfn]; exact h, hnone⟩
      · rintro ⟨i, hi, hfi, _⟩
        have hin : i = n := by
          by_contra hne
          rw [hnone i (by omega)] at hfi
          exact absurd hfi (by simp)
        subst hin
        rw [hfi]

theorem find_finRange_eq_some {n : Nat} {p : Fin n → Bool} {i : Fin n} :
    (List.finRange n).find? p = some i ↔ p i = true ∧ ∀ j, j < i → p j = false := by
  rw [← Fin.find?_eq_find?_finRange]
  exact Fin.find?_eq_some_iff

theorem find_finRange_eq_none {n : Nat} {p : Fin n → Bool} :
    (List.finRange n).find? p = none ↔ ∀ i, p i = false := by
  rw [← Fin.find?_eq_find?_finRange]
  exact Fin.find?_eq_none_iff

theorem findSome_congr {α β : Type} {f g : α → Option β} {l : List α}
    (h : ∀ a, a ∈ l → f a = g a) : l.findSome? f = l.findSome? g := by
  induction l with
  | nil => rfl
  | cons a l ih =>
    rw [List.findSome?_cons, List.findSome?_cons, h a List.mem_cons_self,
      ih fun b hb => h b (List.mem_cons_of_mem _ hb)]

/-- A search over blocks of `k` indices, each searched in turn, is one search over all of them. -/
theorem findSome_blocks {α : Type} (f : Nat → Option α) (k a n : Nat) :
    ((List.range' a n).findSome? fun i => (List.range k).findSome? fun j => f (i * k + j)) =
      (List.range' (a * k) (n * k)).findSome? f := by
  induction n generalizing a with
  | zero => rw [Nat.zero_mul]; rfl
  | succ n ih =>
    have hsplit : List.range' (a * k) ((n + 1) * k) =
        List.range' (a * k) k ++ List.range' ((a + 1) * k) (n * k) := by
      rw [Nat.succ_mul, Nat.succ_mul, Nat.add_comm (n * k), List.range'_append_1]
    have hblock : (List.range k).map (a * k + ·) = List.range' (a * k) k := by
      rw [List.range'_eq_map_range]
    have hcomp : (f ∘ fun j => a * k + j) = fun j => f (a * k + j) := rfl
    rw [List.range'_succ, List.findSome?_cons, ih, hsplit, List.findSome?_append, ← hblock,
      List.findSome?_map, hcomp]
    cases (List.range k).findSome? fun j => f (a * k + j) with
    | none => rfl
    | some b => rfl

/-- A search whose test gives the index itself is `find?`. -/
theorem findSome_guard (p : Nat → Bool) (l : List Nat) :
    (l.findSome? fun i => if p i then some (some i) else none).join = l.find? p := by
  induction l with
  | nil => rfl
  | cons a l ih =>
    rw [List.findSome?_cons, List.find?_cons]
    cases p a with
    | true => rfl
    | false => exact ih

end Search
