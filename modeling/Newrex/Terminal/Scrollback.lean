import Newrex.Lib.TextPage
import Newrex.Terminal.Basic

/-!
# The console as a window on an unbounded terminal

What `print_char_color` prints after `clear_screen` is compared with a terminal that never
scrolls: its page has rows of 80 cells and no end, and the 25 rows of the video memory are a
window on it.

* `scrollLoops_eq`, `Screen.checkScroll_eq_loops`: the two loops of `check_scroll`, byte by
  byte in place, move the rows up;
* `Screen.Shows.newline`, `Screen.Shows.put`: what one character does;
* `console_refines_page`: for every text without backspace the video memory and the cursor are
  those of the page.
-/

namespace Newrex

/-! ## The loops over the video memory -/

/-- `for (int i = start; ...; i += 2)`, which fills `cells` cells with light gray spaces. -/
def blankLoop (start cells : Nat) (vm : Nat → UInt8) : Nat → UInt8 :=
  (List.range cells).foldl
    (fun vm k => Function.update (Function.update vm (start + 2 * k) 32) (start + 2 * k + 1)
      colorLightGray) vm

/-- The first loop of `check_scroll`, for the first `n` bytes. -/
def copyLoop (n : Nat) (vm : Nat → UInt8) : Nat → UInt8 :=
  (List.range n).foldl (fun vm i => Function.update vm i (vm (i + 160))) vm

/-- The two loops of `check_scroll`. -/
def scrollLoops (vm : Nat → UInt8) : Nat → UInt8 := blankLoop 3840 80 (copyLoop 3840 vm)

/-- `clear_screen`. -/
def Screen.clearScreen (scr : Screen) : Screen :=
  { scr with videoMemory := blankLoop 0 2000 scr.videoMemory, cursorOffset := 0 }

/-- The byte of a blank cell at an even or odd offset. -/
def blankByte (i : Nat) : UInt8 := if i % 2 = 0 then 32 else colorLightGray

theorem blankLoop_apply {start : Nat} (heven : start % 2 = 0) (cells : Nat) (vm : Nat → UInt8)
    (i : Nat) :
    blankLoop start cells vm i =
      if start ≤ i ∧ i < start + 2 * cells then blankByte i else vm i := by
  induction cells with
  | zero =>
    rw [if_neg (by omega)]
    rfl
  | succ n ih =>
    rw [blankLoop, List.range_succ, List.foldl_append, List.foldl_cons, List.foldl_nil,
      ← blankLoop]
    by_cases hattr : i = start + 2 * n + 1
    · rw [hattr, Function.update_self, if_pos (by omega), blankByte, if_neg (by omega)]
    · rw [Function.update_of_ne hattr]
      by_cases hchar : i = start + 2 * n
      · rw [hchar, Function.update_self, if_pos (by omega), blankByte, if_pos (by omega)]
      · rw [Function.update_of_ne hchar, ih]
        congr 1
        exact propext (by omega)

/-- The copy reads each byte before it is overwritten. -/
theorem copyLoop_apply (n : Nat) (vm : Nat → UInt8) (i : Nat) :
    copyLoop n vm i = if i < n then vm (i + 160) else vm i := by
  induction n generalizing i with
  | zero => rfl
  | succ n ih =>
    rw [copyLoop, List.range_succ, List.foldl_append, List.foldl_cons, List.foldl_nil,
      ← copyLoop]
    by_cases hi : i = n
    · rw [hi, Function.update_self, ih, if_neg (by omega), if_pos (by omega)]
    · rw [Function.update_of_ne hi, ih]
      congr 1
      exact propext (by omega)

/-- The loops of `check_scroll` do what `scrollUp` says. -/
theorem scrollLoops_eq (vm : Nat → UInt8) : scrollLoops vm = scrollUp vm := by
  funext i
  rw [scrollLoops, blankLoop_apply (by decide), copyLoop_apply, scrollUp]
  by_cases hcopied : i < 3840
  · rw [if_neg (by omega), if_pos hcopied, if_pos hcopied]
  · rw [if_neg hcopied, if_neg hcopied]
    congr 1
    exact propext (by omega)

namespace Screen

theorem checkScroll_eq_loops (scr : Screen) :
    scr.checkScroll = if 4000 ≤ scr.cursorOffset then
      ⟨scrollLoops scr.videoMemory, 3840, scr.promptMinOffset - 160⟩ else scr := by
  rw [checkScroll, scrollLoops_eq]

/-! ## The window on the page -/

/-- A cell: a character and its colour. -/
abbrev Cell := UInt8 × UInt8

/-- A light gray space. -/
abbrev blankCell : Cell := (32, colorLightGray)

/-- The unbounded terminal: rows of 80 cells. -/
abbrev Page := TextPage Cell blankCell 80

/-- The byte of a cell at an even or odd offset. -/
def cellByte (cell : Cell) (i : Nat) : UInt8 := if i % 2 = 0 then cell.1 else cell.2

/-- The byte at `i` of cells that are laid out in rows of 160 bytes. -/
def byteAt (cells : Nat → Nat → Cell) (i : Nat) : UInt8 :=
  cellByte (cells (i / 160) (i % 160 / 2)) i

/-- The screen is the window of 25 rows on the page, with the cursor at the same place. -/
structure Shows (scr : Screen) (page : Page) : Prop where
  bytes : ∀ i < 4000, scr.videoMemory i = byteAt (page.window 25) i
  cursor : scr.cursorOffset = 160 * (page.row - page.top 25) + 2 * page.column

theorem shows_clearScreen (scr : Screen) :
    scr.clearScreen.Shows (TextPage.empty Cell blankCell 80) where
  bytes := fun i hi => by
    simp only [clearScreen]
    rw [blankLoop_apply (by decide), if_pos (by omega)]
    rfl
  cursor := rfl

/-- One row further down, at the same place in the row. -/
theorem byteAt_add (cells : Nat → Nat → Cell) (i : Nat) :
    byteAt cells (i + 160) = byteAt (fun row => cells (row + 1)) i := by
  have hparity : (i + 160) % 2 = i % 2 := by omega
  rw [byteAt, byteAt, cellByte, cellByte, hparity, Nat.add_div_right i (by decide),
    Nat.add_mod_right]

/-- The cursor is behind the last cell of its row, or a newline was printed. -/
theorem Shows.newline {scr : Screen} {page : Page} (h : scr.Shows page) :
    Shows (checkScroll { scr with cursorOffset := 160 * (page.row - page.top 25 + 1) })
      page.newline := by
  have htop : page.top 25 = page.row + 1 - 25 := rfl
  by_cases hroom : page.row + 1 < 25
  · have hsame := page.top_newline_of_lt hroom
    rw [checkScroll, if_neg (by dsimp only; omega)]
    refine ⟨fun i hi => ?_, ?_⟩
    · rw [page.window_newline_of_lt hroom]
      exact h.bytes i hi
    · rw [hsame]
      simp only [TextPage.newline]
      omega
  · have hfull : 25 ≤ page.row + 1 := by omega
    have hmoved := page.top_newline_of_le hfull
    rw [checkScroll, if_pos (by dsimp only; omega)]
    refine ⟨fun i hi => ?_, ?_⟩
    · show scrollUp scr.videoMemory i = byteAt (page.newline.window 25) i
      rw [scrollUp]
      by_cases hcopied : i < 3840
      · have hbyte := h.bytes (i + 160) (by omega)
        rw [byteAt_add] at hbyte
        rw [if_pos hcopied, hbyte, byteAt, byteAt, page.window_newline_of_le hfull,
          if_pos (by omega)]
      · -- The last row of the window is the new one.
        rw [if_neg hcopied, if_pos hi, byteAt, page.window_newline_of_le hfull,
          if_neg (show ¬ i / 160 + 1 < 25 by omega), cellByte]
    · rw [hmoved]
      simp only [TextPage.newline]
      omega

/-- A character is written at the cursor, which has not moved yet. -/
theorem Shows.write {scr : Screen} {page : Page} (h : scr.Shows page) (c attr : UInt8) :
    Shows { scr with videoMemory := scr.putCell scr.cursorOffset c attr }
      (page.write (c, attr)) where
  bytes := fun i hi => by
    have hcolumn := page.column_lt
    have htop : page.top 25 ≤ page.row := by
      unfold TextPage.top
      omega
    have hcursor := h.cursor
    show scr.putCell scr.cursorOffset c attr i = byteAt ((page.write (c, attr)).window 25) i
    rw [byteAt, page.window_write, putCell]
    by_cases hattr : i = scr.cursorOffset + 1
    · rw [hattr, Function.update_self, if_pos (by omega), cellByte, if_neg (by omega)]
    · rw [Function.update_of_ne hattr]
      by_cases hchar : i = scr.cursorOffset
      · rw [hchar, Function.update_self, if_pos (by omega), cellByte, if_pos (by omega)]
      · rw [Function.update_of_ne hchar, if_neg (by omega)]
        exact h.bytes i hi
  cursor := h.cursor

theorem Shows.cursorOffset_lt {scr : Screen} {page : Page} (h : scr.Shows page) :
    scr.cursorOffset < 4000 := by
  have hcolumn := page.column_lt
  have htop : page.top 25 = page.row + 1 - 25 := rfl
  rw [h.cursor]
  omega

/-- A character that is no control character is put on the page. -/
theorem Shows.put {scr : Screen} {page : Page} (h : scr.Shows page) {c : UInt8}
    (hnewline : c ≠ 10) (hbackspace : c ≠ 8) (attr : UInt8) :
    (scr.printCharColor c attr).Shows (page.put (c, attr)) := by
  have hcolumn := page.column_lt
  have hwritten := h.write c attr
  have hcursor := h.cursor
  have htop : page.top 25 = page.row + 1 - 25 := rfl
  rw [printCharColor, if_neg hnewline, if_neg hbackspace, if_pos h.cursorOffset_lt, TextPage.put]
  by_cases hroom : page.column + 1 < 80
  · rw [dif_pos hroom, checkScroll, if_neg (by dsimp only; omega)]
    exact ⟨hwritten.bytes, by rw [hcursor]; rfl⟩
  · rw [dif_neg hroom]
    have hend : scr.cursorOffset + 2 = 160 * (page.row - page.top 25 + 1) := by omega
    rw [hend]
    exact hwritten.newline

/-- What the unbounded terminal does with a character. -/
def pagePrint (page : Page) (c attr : UInt8) : Page :=
  if c = 10 then page.newline else page.put (c, attr)

theorem Shows.printCharColor {scr : Screen} {page : Page} (h : scr.Shows page) {c : UInt8}
    (hbackspace : c ≠ 8) (attr : UInt8) :
    (scr.printCharColor c attr).Shows (pagePrint page c attr) := by
  rw [pagePrint]
  by_cases hnewline : c = 10
  · have hcolumn := page.column_lt
    have hcursor := h.cursor
    have hrow : (scr.cursorOffset / 160 + 1) * 160 = 160 * (page.row - page.top 25 + 1) := by
      omega
    rw [Screen.printCharColor, if_pos hnewline, if_pos hnewline, hrow]
    exact h.newline
  · rw [if_neg hnewline]
    exact h.put hnewline hbackspace attr

/-- A text with its colours, printed character by character. -/
def printText (scr : Screen) (text : List (UInt8 × UInt8)) : Screen :=
  text.foldl (fun scr p => scr.printCharColor p.1 p.2) scr

/-- The same text on the unbounded terminal. -/
def pageText (page : Page) (text : List (UInt8 × UInt8)) : Page :=
  text.foldl (fun page p => pagePrint page p.1 p.2) page

theorem Shows.printText {scr : Screen} {page : Page} (h : scr.Shows page)
    {text : List (UInt8 × UInt8)} (htext : ∀ p ∈ text, p.1 ≠ 8) :
    (scr.printText text).Shows (pageText page text) := by
  induction text generalizing scr page with
  | nil => exact h
  | cons p text ih =>
    obtain ⟨hhead, htail⟩ := List.forall_mem_cons.mp htext
    exact ih (h.printCharColor hhead p.2) htail

end Screen

open Screen in
/-- The console refines the unbounded terminal: after `clear_screen` and any text without
backspace the video memory holds the last 25 rows of the page, down to the row of its cursor,
and `cursor_offset` is the place of the cursor in them. -/
theorem console_refines_page (scr : Screen) (text : List (UInt8 × UInt8))
    (htext : ∀ p ∈ text, p.1 ≠ 8) :
    let console := scr.clearScreen.printText text
    let page := pageText (TextPage.empty Cell blankCell 80) text
    let r0 := page.row - 24
    (∀ row < 25, ∀ column < 80,
      console.videoMemory (160 * row + 2 * column) = (page.cell (r0 + row) column).1 ∧
        console.videoMemory (160 * row + 2 * column + 1) = (page.cell (r0 + row) column).2) ∧
      console.cursorOffset % 2 = 0 ∧ console.cursorOffset < 4000 ∧
      console.cursorOffset = 160 * (page.row - r0) + 2 * page.column := by
  intro console page r0
  have hshows : console.Shows page := (shows_clearScreen scr).printText htext
  have htop : page.top 25 = r0 := by
    simp only [r0, TextPage.top]
    omega
  have hcursor := hshows.cursor
  rw [htop] at hcursor
  refine ⟨fun row hrow column hcolumn => ⟨?_, ?_⟩, by omega, hshows.cursorOffset_lt, hcursor⟩
  · rw [hshows.bytes _ (by omega), byteAt, cellByte, if_pos (by omega), TextPage.window, htop]
    congr 2
    all_goals omega
  · rw [hshows.bytes _ (by omega), byteAt, cellByte, if_neg (by omega), TextPage.window, htop]
    congr 2
    all_goals omega

/-- Twenty-five newlines and a letter: the letter stands at the start of the last row. -/
theorem console_refines_page_sample :
    let text : List (UInt8 × UInt8) := List.replicate 25 (10, colorWhite) ++ [(65, colorWhite)]
    let console := (Screen.clearScreen ⟨fun _ => 0, 0, 0⟩).printText text
    console.videoMemory (160 * 24 + 2 * 0) = 65 ∧ console.cursorOffset = 3842 := by
  intro text console
  have htext : ∀ p ∈ text, p.1 ≠ 8 := by
    intro p hp
    rcases List.mem_append.mp hp with hnewline | hletter
    · rw [List.eq_of_mem_replicate hnewline]
      decide
    · rw [List.mem_singleton.mp hletter]
      decide
  obtain ⟨hcells, -, -, hcursor⟩ := console_refines_page ⟨fun _ => 0, 0, 0⟩ text htext
  have hletter := (hcells 24 (by decide) 0 (by decide)).1
  constructor
  · rw [hletter]
    decide +kernel
  · rw [hcursor]
    decide +kernel

end Newrex
