import Mathlib.Data.List.GetD
import Newrex.Lib.LittleEndian

/-!
# Stacks in memory

A stack of `w`-byte words that grows downwards, in a memory whose addresses are
`w`-byte words themselves. `pushAll` pushes a list of words, and the words are
found above the new top in the reverse order (`load_pushAll`); all other bytes
stay (`pushAll_outside`).
-/

namespace Stack

open LittleEndian

/-- The memory and the top of the stack after `*(--top) = v`. -/
def push (w : Nat) (s : (Nat → UInt8) × Nat) (v : Nat) : (Nat → UInt8) × Nat :=
  let top := (s.2 + 256 ^ w - w) % 256 ^ w
  (store s.1 w top v, top)

def pushAll (w : Nat) (s : (Nat → UInt8) × Nat) (vs : List Nat) : (Nat → UInt8) × Nat :=
  vs.foldl (push w) s

variable {w top : Nat} {m : Nat → UInt8} {vs : List Nat}

theorem push_eq {v : Nat} (hw : w ≤ top) (htop : top < 256 ^ w) :
    push w (m, top) v = (store m w (top - w) v, top - w) := by
  have haddr : (top + 256 ^ w - w) % 256 ^ w = top - w := by
    have hsplit : top + 256 ^ w - w = top - w + 256 ^ w := by omega
    rw [hsplit, Nat.add_mod_right, Nat.mod_eq_of_lt (by omega)]
  simp only [push, haddr]

theorem pushAll_top (hroom : w * vs.length ≤ top) (htop : top < 256 ^ w) :
    (pushAll w (m, top) vs).2 = top - w * vs.length := by
  induction vs generalizing m top with
  | nil => rfl
  | cons v vs ih =>
    rw [List.length_cons, Nat.mul_succ] at hroom ⊢
    rw [pushAll, List.foldl_cons, push_eq (by omega) htop, ← pushAll, ih (by omega) (by omega)]
    omega

/-- Pushing changes only the bytes between the new and the old top. -/
theorem pushAll_outside (hroom : w * vs.length ≤ top) (htop : top < 256 ^ w) {x : Nat}
    (hx : x < top - w * vs.length ∨ top ≤ x) : (pushAll w (m, top) vs).1 x = m x := by
  induction vs generalizing m top with
  | nil => rfl
  | cons v vs ih =>
    rw [List.length_cons, Nat.mul_succ] at hroom hx
    rw [pushAll, List.foldl_cons, push_eq (by omega) htop, ← pushAll,
      ih (by omega) (by omega) (by omega), store_outside (by omega)]

/-- The words above the new top, the word pushed last in front. -/
theorem load_pushAll (hroom : w * vs.length ≤ top) (htop : top < 256 ^ w)
    (hword : ∀ v, v ∈ vs → v < 256 ^ w) {i : Nat} (hi : i < vs.length) :
    load (pushAll w (m, top) vs).1 w (top - w * vs.length + w * i) = vs.reverse.getD i 0 := by
  induction vs generalizing m top with
  | nil => exact absurd hi (Nat.not_lt_zero i)
  | cons v vs ih =>
    rw [List.length_cons, Nat.mul_succ] at hroom ⊢
    rw [List.length_cons] at hi
    have htail : ∀ u, u ∈ vs → u < 256 ^ w := fun u hu => hword u (List.mem_cons_of_mem v hu)
    have hsub : top - (w * vs.length + w) = top - w - w * vs.length := by omega
    rw [pushAll, List.foldl_cons, push_eq (by omega) htop, ← pushAll, hsub, List.reverse_cons]
    rcases Nat.lt_or_eq_of_le (Nat.le_of_lt_succ hi) with hlt | rfl
    · rw [ih (by omega) (by omega) htail hlt,
        List.getD_append _ _ _ _ (by rw [List.length_reverse]; exact hlt)]
    · -- the first word pushed lies above all others
      have haddr : top - w - w * vs.length + w * vs.length = top - w := by omega
      have hkeep : load (pushAll w (store m w (top - w) v, top - w) vs).1 w (top - w) =
          load (store m w (top - w) v) w (top - w) :=
        load_congr fun j hj => pushAll_outside (by omega) (by omega) (by omega)
      rw [haddr, hkeep, load_store_same, Nat.mod_eq_of_lt (hword v List.mem_cons_self),
        List.getD_append_right _ _ _ _ (by rw [List.length_reverse]), List.length_reverse,
        Nat.sub_self]
      rfl

end Stack
