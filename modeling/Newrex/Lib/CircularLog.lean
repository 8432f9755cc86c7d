import Mathlib.Algebra.Group.Fin.Basic
import Mathlib.Data.List.OfFn
import Mathlib.Data.List.Rotate
import Mathlib.Logic.Function.Basic

/-!
# Circular logs

A log of the last `n + 1` entries in as many slots: a new entry goes to the slot `next`,
which held the oldest one.

* `window`: the entries, the oldest first. `window_pushAll` says that these are the last ones
  of everything that was logged;
* `window_eq_rotate`: in the order of their slots, the entries are turned by `next`.
-/

namespace CircularLog

/-- The slots, and the one that is written next. -/
structure Log (α : Type) (n : Nat) where
  slots : Fin (n + 1) → α
  next : Fin (n + 1)

variable {α : Type} {n : Nat}

def push (b : Log α n) (a : α) : Log α n := ⟨Function.update b.slots b.next a, b.next + 1⟩

/-- The entries, the oldest first. -/
def window (b : Log α n) : List α := List.ofFn fun i => b.slots (b.next + i)

theorem length_window (b : Log α n) : (window b).length = n + 1 := List.length_ofFn

/-- The new entry comes last, and the oldest one is gone. -/
theorem window_push (b : Log α n) (a : α) : window (push b a) = (window b).tail ++ [a] := by
  have hlast : b.next + 1 + Fin.last n = b.next := by
    rw [add_assoc, add_comm 1, Fin.last_add_one, add_zero]
  have hother : ∀ i : Fin n, b.next + 1 + i.castSucc = b.next + i.succ := fun i => by
    rw [add_assoc, add_comm 1, Fin.coeSucc_eq_succ]
  have hne : ∀ i : Fin n, b.next + i.succ ≠ b.next := fun i h =>
    Fin.succ_ne_zero i (add_eq_left.mp h)
  rw [window, window, List.ofFn_succ', List.ofFn_succ, List.tail_cons, List.concat_eq_append]
  congr 1
  · congr 1
    funext i
    show (push b a).slots (b.next + 1 + i.castSucc) = b.slots (b.next + i.succ)
    rw [hother]
    exact Function.update_of_ne (hne i) a b.slots
  · show [(push b a).slots (b.next + 1 + Fin.last n)] = [a]
    rw [hlast]
    simp only [push, Function.update_self]

theorem window_pushAll (b : Log α n) (entries : List α) :
    window (entries.foldl push b) = (window b ++ entries).drop entries.length := by
  induction entries generalizing b with
  | nil => rw [List.append_nil]; rfl
  | cons a entries ih =>
    have hlen := length_window b
    rw [List.foldl_cons, ih, window_push]
    cases hwindow : window b with
    | nil =>
      rw [hwindow] at hlen
      cases hlen
    | cons w ws =>
      rw [List.tail_cons, List.append_assoc, List.singleton_append, List.length_cons,
        List.cons_append, List.drop_succ_cons]

theorem next_pushAll (b : Log α n) (entries : List α) :
    (entries.foldl push b).next.val = (b.next.val + entries.length) % (n + 1) := by
  induction entries generalizing b with
  | nil => exact (Nat.mod_eq_of_lt b.next.isLt).symm
  | cons a entries ih =>
    rw [List.foldl_cons, ih, List.length_cons]
    show ((b.next + 1).val + entries.length) % (n + 1) = _
    rw [Fin.val_add, Nat.mod_add_mod, Fin.val_one', Nat.add_right_comm, Nat.add_mod_mod,
      Nat.add_assoc]

/-- The entries from the slot `next` on. -/
theorem window_eq_rotate (b : Log α n) : window b = (List.ofFn b.slots).rotate b.next.val := by
  refine List.ext_getElem ?_ fun i hi _ => ?_
  · rw [List.length_rotate, length_window, List.length_ofFn]
  · rw [length_window] at hi
    rw [List.getElem_rotate]
    simp only [window, List.getElem_ofFn, List.length_ofFn]
    congr 1
    refine Fin.ext ?_
    rw [Fin.val_add, Nat.add_comm]

end CircularLog
