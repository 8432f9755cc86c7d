import Mathlib.Algebra.GroupWithZero.Nat
import Mathlib.Logic.Function.Basic

/-!
# Text pages and windows

A page of text that never ends: cells in rows of a fixed width, written at a cursor that wraps
after the last column. A window shows the last rows of the page, down to the row of the cursor.

* `window_newline_of_lt`, `window_newline_of_le`: a new row leaves the window as it is while
  there is room, and moves it by one row after that;
* `window_write`: a cell that is written shows up at the cursor, and nothing else changes.
-/

/-- A page with rows of `width` cells. What lies below the row of the cursor is blank. -/
structure TextPage (α : Type) (blank : α) (width : Nat) where
  cell : Nat → Nat → α
  row : Nat
  column : Nat
  column_lt : column < width
  blank_below : ∀ i j, row < i → cell i j = blank

namespace TextPage

variable {α : Type} {blank : α} {width : Nat}

/-- The blank page, with the cursor at its start. -/
def empty (α : Type) (blank : α) (width : Nat) [NeZero width] : TextPage α blank width where
  cell := fun _ _ => blank
  row := 0
  column := 0
  column_lt := Nat.pos_of_neZero width
  blank_below := fun _ _ _ => rfl

/-- The cursor goes to the start of the next row. -/
def newline (p : TextPage α blank width) : TextPage α blank width where
  cell := p.cell
  row := p.row + 1
  column := 0
  column_lt := Nat.zero_lt_of_lt p.column_lt
  blank_below := fun i j hi => p.blank_below i j (Nat.lt_of_succ_lt hi)

/-- The cell at the cursor is written. -/
def write (p : TextPage α blank width) (a : α) : TextPage α blank width where
  cell := Function.update p.cell p.row (Function.update (p.cell p.row) p.column a)
  row := p.row
  column := p.column
  column_lt := p.column_lt
  blank_below := fun i j hi => by
    rw [Function.update_of_ne (Nat.ne_of_gt hi)]
    exact p.blank_below i j hi

/-- A cell is written and the cursor goes on, to the next row after the last column. -/
def put (p : TextPage α blank width) (a : α) : TextPage α blank width :=
  if hroom : p.column + 1 < width then
    { p.write a with column := p.column + 1, column_lt := hroom }
  else (p.write a).newline

/-- The first row that a window of `height` rows shows. -/
def top (p : TextPage α blank width) (height : Nat) : Nat := p.row + 1 - height

/-- The cells of a window of `height` rows. -/
def window (p : TextPage α blank width) (height : Nat) (i j : Nat) : α :=
  p.cell (p.top height + i) j

variable (p : TextPage α blank width) {height : Nat}

theorem top_newline_of_lt (hroom : p.row + 1 < height) : p.newline.top height = p.top height := by
  simp only [top, newline]
  omega

theorem top_newline_of_le (hfull : height ≤ p.row + 1) :
    p.newline.top height = p.top height + 1 := by
  simp only [top, newline]
  omega

theorem window_newline_of_lt (hroom : p.row + 1 < height) :
    p.newline.window height = p.window height := by
  funext i j
  rw [window, window, top_newline_of_lt p hroom]
  rfl

/-- In a full window the rows move up, and the last one is blank. -/
theorem window_newline_of_le (hfull : height ≤ p.row + 1) (i j : Nat) :
    p.newline.window height i j = if i + 1 < height then p.window height (i + 1) j else blank := by
  rw [window, top_newline_of_le p hfull]
  split
  · rw [window, Nat.add_right_comm]
    rfl
  · refine p.blank_below _ j ?_
    unfold top
    omega

/-- A window shows the cell that is written, and nothing else changes in it. -/
theorem window_write (a : α) (i j : Nat) :
    (p.write a).window height i j =
      if p.top height + i = p.row ∧ j = p.column then a else p.window height i j := by
  have hcell : (p.write a).window height i j =
      Function.update p.cell p.row (Function.update (p.cell p.row) p.column a)
        (p.top height + i) j := rfl
  rw [hcell, window]
  by_cases hi : p.top height + i = p.row
  · rw [hi, Function.update_self]
    by_cases hj : j = p.column
    · rw [if_pos ⟨rfl, hj⟩, hj, Function.update_self]
    · rw [if_neg (fun h => hj h.2), Function.update_of_ne hj]
  · rw [if_neg (fun h => hi h.1), Function.update_of_ne hi]

end TextPage
