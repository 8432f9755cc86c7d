import Mathlib.Data.Nat.Basic
import Mathlib.Tactic.Ring

/-!
# Records in a ring of bytes

Records of different lengths lie one behind the other in a ring of `size` bytes. Their
places are counted by numbers that only grow, and the record at the place `v` starts at
position `v % size`. `Chain holds slot v rs e` says that the records `rs` fill the places
from `v` to `e`; `Chain.append` puts a record behind them, `Chain.mono` keeps them, and
`position_ne` keeps their bytes apart from what is stored behind them.
-/

namespace RecordRing

variable {ρ : Type} {size : Nat} {holds holds' : Nat → ρ → Prop} {slot : ρ → Nat}

/-- The records fill the places from the first number to the second. A record takes `slot`
bytes, and `holds p r` says that it is stored at position `p`. -/
def Chain (size : Nat) (holds : Nat → ρ → Prop) (slot : ρ → Nat) : Nat → List ρ → Nat → Prop
  | v, [], e => v = e
  | v, r :: rs, e => holds (v % size) r ∧ Chain size holds slot (v + slot r) rs e

theorem Chain.le {v e : Nat} {rs : List ρ} (h : Chain size holds slot v rs e) : v ≤ e := by
  induction rs generalizing v with
  | nil => exact Nat.le_of_eq h
  | cons r rs ih => exact Nat.le_trans (Nat.le_add_right v (slot r)) (ih h.2)

theorem Chain.append {v e : Nat} {rs : List ρ} {r : ρ} (h : Chain size holds slot v rs e)
    (hr : holds (e % size) r) : Chain size holds slot v (rs ++ [r]) (e + slot r) := by
  induction rs generalizing v with
  | nil =>
    obtain rfl : v = e := h
    exact ⟨hr, rfl⟩
  | cons r' rs ih => exact ⟨h.1, ih h.2⟩

/-- A change of the bytes that keeps every record between `v` and `e`. -/
theorem Chain.mono {v e : Nat} {rs : List ρ} (h : Chain size holds slot v rs e)
    (hkeep : ∀ w r, v ≤ w → w + slot r ≤ e → holds (w % size) r → holds' (w % size) r) :
    Chain size holds' slot v rs e := by
  induction rs generalizing v with
  | nil => exact h
  | cons r rs ih =>
    refine ⟨hkeep v r (Nat.le_refl v) h.2.le h.1, ih h.2 fun w r' hw => ?_⟩
    exact hkeep w r' (Nat.le_trans (Nat.le_add_right v (slot r)) hw)

/-- Bytes less than a round of the ring apart are at different positions, also behind its
end. -/
theorem position_ne {v e x y : Nat} (hlow : v + x < e + y) (hhigh : e + y < v + x + size) :
    v % size + x ≠ e % size + y := by
  intro heq
  have hv := Nat.div_add_mod v size
  have he := Nat.div_add_mod e size
  have hround : e + y = v + x + size * (e / size) - size * (v / size) := by omega
  rcases Nat.lt_or_ge (v / size) (e / size) with hlt | hge
  · have hmul : size * (v / size) + size ≤ size * (e / size) := by
      rw [← Nat.mul_succ]
      exact Nat.mul_le_mul_left size hlt
    omega
  · have hmul : size * (e / size) ≤ size * (v / size) := Nat.mul_le_mul_left size hge
    omega

end RecordRing
