import Mathlib.Algebra.BigOperators.Group.List.Basic
import Mathlib.Data.List.Induction
import Mathlib.Data.Nat.ModEq

/-!
# One's complement sums

Numbers from 0 to `m = 2 ^ w - 1` as one's complement numbers of `w` bits, where 0 and `m`
both stand for zero. `addCarry` is their addition with the end-around carry.

* `foldl_addCarry`: a sum depends on the plain sum of its numbers only;
* `reduce_eq_of_modEq`: and of that only on its residue modulo `m`, and on whether it is 0.
-/

namespace OnesComplement

/-- The sum of two numbers, with a carry out of the highest bit added at the lowest. -/
def addCarry (m a b : Nat) : Nat := if a + b ≤ m then a + b else a + b - m

/-- The number from 0 to `m` that stands for a plain sum: 0 for 0 alone, and from 1 to `m`
for the others. -/
def reduce (m n : Nat) : Nat := if n = 0 then 0 else (n - 1) % m + 1

variable {m : Nat}

theorem reduce_of_le {n : Nat} (h : n ≤ m) : reduce m n = n := by
  rw [reduce]
  split
  · omega
  · rw [Nat.mod_eq_of_lt (by omega)]
    omega

theorem reduce_add_self {n : Nat} (hn : 0 < n) : reduce m (n + m) = reduce m n := by
  have hsub : n + m - 1 = n - 1 + m := by omega
  rw [reduce, reduce, if_neg (by omega), if_neg (by omega), hsub, Nat.add_mod_right]

theorem reduce_add_mul {n : Nat} (hn : 0 < n) (k : Nat) : reduce m (n + m * k) = reduce m n := by
  induction k with
  | zero => rw [Nat.mul_zero, Nat.add_zero]
  | succ k ih => rw [Nat.mul_succ, ← Nat.add_assoc, reduce_add_self (by omega), ih]

theorem reduce_le (hm : 0 < m) (n : Nat) : reduce m n ≤ m := by
  have hlt := Nat.mod_lt (n - 1) hm
  rw [reduce]
  split
  · omega
  · omega

/-- Two positive sums with the same residue stand for the same number. -/
theorem reduce_eq_of_modEq {a b : Nat} (ha : 0 < a) (hb : 0 < b) (h : a ≡ b [MOD m]) :
    reduce m a = reduce m b := by
  rcases Nat.le_total a b with hle | hle
  · obtain ⟨k, hk⟩ := (Nat.modEq_iff_dvd' hle).mp h
    rw [← Nat.add_sub_cancel' hle, hk, reduce_add_mul ha]
  · obtain ⟨k, hk⟩ := (Nat.modEq_iff_dvd' hle).mp h.symm
    rw [← Nat.add_sub_cancel' hle, hk, reduce_add_mul hb]

theorem reduce_modEq (m n : Nat) : reduce m n ≡ n [MOD m] := by
  rw [reduce]
  split
  · rename_i hzero
    rw [hzero]
  · have hstep : (n - 1) % m + 1 ≡ n - 1 + 1 [MOD m] := (Nat.mod_modEq (n - 1) m).add_right 1
    rwa [Nat.sub_add_cancel (by omega)] at hstep

theorem reduce_pos {n : Nat} (hn : 0 < n) : 0 < reduce m n := by
  rw [reduce, if_neg (by omega)]
  exact Nat.succ_pos _

theorem addCarry_reduce (hm : 0 < m) (n : Nat) {a : Nat} (ha : a ≤ m) :
    addCarry m (reduce m n) a = reduce m (n + a) := by
  rcases Nat.eq_zero_or_pos n with rfl | hn
  · have hzero : reduce m 0 = 0 := rfl
    rw [hzero, addCarry, Nat.zero_add, if_pos ha, reduce_of_le ha]
  · have hpos := reduce_pos (m := m) hn
    have hle := reduce_le hm n
    have hsum : reduce m n + a ≡ n + a [MOD m] := (reduce_modEq m n).add_right a
    rw [addCarry]
    split
    · rename_i hfits
      rw [← reduce_of_le hfits]
      exact reduce_eq_of_modEq (by omega) (by omega) hsum
    · have hcarry : reduce m n + a - m + m = reduce m n + a := by omega
      have hover : reduce m n + a - m ≡ n + a [MOD m] := by
        rw [← hcarry] at hsum
        exact (Nat.add_modEq_right (n := m)).symm.trans hsum
      rw [← reduce_of_le (show reduce m n + a - m ≤ m by omega)]
      exact reduce_eq_of_modEq (by omega) (by omega) hover

/-- A sum with end-around carries stands for the plain sum. -/
theorem foldl_addCarry (hm : 0 < m) {l : List Nat} (hl : ∀ a ∈ l, a ≤ m) :
    l.foldl (addCarry m) 0 = reduce m l.sum := by
  induction l using List.reverseRecOn with
  | nil => rfl
  | append_singleton l a ih =>
    have hrest := ih fun b hb => hl b (List.mem_append_left _ hb)
    have hlast := hl a (List.mem_append_right _ (List.mem_singleton_self a))
    rw [List.foldl_append, hrest, List.foldl_cons, List.foldl_nil, addCarry_reduce hm _ hlast,
      List.sum_append, List.sum_singleton]

end OnesComplement
