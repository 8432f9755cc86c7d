import Mathlib.Data.List.Basic

/-!
# Frames of three items in a stream

A stream is cut into frames of three items. A frame begins with an item that can start one;
items between two frames that cannot are skipped.

* `group_concat`: what one more item does to the frames and to the items that are left.
-/

namespace Framing

variable {α : Type} (start : α → Bool)

/-- The frames of a stream, and the items of the one that is not complete. -/
def group : List α → List (α × α × α) × List α
  | [] => ([], [])
  | a :: rest =>
    if start a then
      match rest with
      | [] => ([], [a])
      | [b] => ([], [a, b])
      | b :: c :: rest => ((a, b, c) :: (group rest).1, (group rest).2)
    else group rest

/-- One more item: it is skipped, kept, or completes a frame. -/
theorem group_concat (l : List α) (c : α) :
    group start (l ++ [c]) =
      match (group start l).2 with
      | [] => if start c then ((group start l).1, [c]) else group start l
      | [a] => ((group start l).1, [a, c])
      | a :: b :: _ => ((group start l).1 ++ [(a, b, c)], []) := by
  fun_induction group start l with
  | case1 => simp [group]
  | case2 a h => simp [group, h]
  | case3 a h b => simp [group, h]
  | case4 a h b d rest ih =>
    have hhead : ∀ l, group start (a :: b :: d :: l) =
        ((a, b, d) :: (group start l).1, (group start l).2) := fun l => by
      rw [group, if_pos h]
    rw [List.cons_append, List.cons_append, List.cons_append, hhead, ih]
    cases hrest : (group start rest).2 with
    | nil =>
      by_cases hc : start c = true
      · rw [if_pos hc, if_pos hc]
      · rw [if_neg hc, if_neg hc, hrest]
    | cons x xs =>
      cases xs with
      | nil => rfl
      | cons y ys => rfl
  | case5 a rest h ih =>
    have hskip : ∀ l, group start (a :: l) = group start l := fun l => by
      rw [group.eq_def]
      exact if_neg h
    rw [List.cons_append, hskip, ih]

end Framing
