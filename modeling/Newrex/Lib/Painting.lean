import Mathlib.Data.List.Induction

/-!
# Painting

A canvas gives each pixel its colour. A layer covers some of the pixels with one colour, and of
several layers that are painted one after another the last one that covers a pixel is seen there.

* `paintAll_append`: layers are painted in two parts;
* `foldl_paint`: a loop that paints piece by piece paints the union of the pieces;
* `paintAll_of_blank`: layers that cover nothing leave no trace.
-/

namespace Painting

/-- Some pixels, and the colour that they get. -/
structure Layer (P C : Type) where
  covers : P → Bool
  color : C

variable {P C ι : Type}

def paint (canvas : P → C) (l : Layer P C) : P → C :=
  fun p => if l.covers p then l.color else canvas p

def paintAll (canvas : P → C) (ls : List (Layer P C)) : P → C := ls.foldl paint canvas

theorem paintAll_append (canvas : P → C) (ls ms : List (Layer P C)) :
    paintAll canvas (ls ++ ms) = paintAll (paintAll canvas ls) ms := List.foldl_append

/-- Pieces of the same colour. -/
theorem foldl_paint (canvas : P → C) (pieces : List ι) (covers : ι → P → Bool) (color : C) :
    pieces.foldl (fun canvas i => paint canvas ⟨covers i, color⟩) canvas =
      paint canvas ⟨fun p => pieces.any fun i => covers i p, color⟩ := by
  induction pieces generalizing canvas with
  | nil => rfl
  | cons i pieces ih =>
    rw [List.foldl_cons, ih]
    funext p
    show (if pieces.any fun i => covers i p then color else if covers i p then color
      else canvas p) = if (i :: pieces).any fun i => covers i p then color else canvas p
    rw [List.any_cons]
    cases hi : covers i p with
    | true => rw [Bool.true_or, if_pos rfl, ite_self]
    | false => rw [Bool.false_or, if_neg Bool.false_ne_true]

theorem paintAll_of_blank {ls : List (Layer P C)} (h : ∀ l, l ∈ ls → ∀ p, l.covers p = false)
    (canvas : P → C) : paintAll canvas ls = canvas := by
  induction ls generalizing canvas with
  | nil => rfl
  | cons l ls ih =>
    have hpaint : paint canvas l = canvas := by
      funext p
      rw [paint, h l List.mem_cons_self p, if_neg Bool.false_ne_true]
    rw [paintAll, List.foldl_cons, hpaint]
    exact ih (fun m hm => h m (List.mem_cons_of_mem _ hm)) canvas

end Painting
