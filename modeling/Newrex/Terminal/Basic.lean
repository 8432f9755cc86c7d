import Mathlib.Data.List.GetD
import Newrex.Console

/-!
# The text terminal

The screen of `kernel/kernel.c` (`check_scroll`, `print_char_color`), its command history
(`add_to_history`, `load_history`) and the keyboard interrupt handler of
`drivers/keyboard.c`, in text mode: with `vga_active` the handler passes the key to the
window manager instead. The serial port is left out.

Offsets are natural numbers. `prompt_min_offset` is set to 0 when it would become
negative, which is the truncated subtraction; `cursor_offset` goes down only from above
`prompt_min_offset`.
-/

namespace Newrex

/-! ## The screen -/

/-- The text screen: two bytes for each of 80 × 25 cells, a character and its colour. -/
structure Screen where
  videoMemory : Nat → UInt8
  cursorOffset : Nat
  promptMinOffset : Nat

/-- The bytes after the loops of `check_scroll`: every row moves up, and the last one is
blank. -/
def scrollUp (vm : Nat → UInt8) : Nat → UInt8 := fun i =>
  if i < 3840 then vm (i + 160)
  else if i < 4000 then if i % 2 = 0 then 32 else colorLightGray
  else vm i

namespace Screen

/-- `check_scroll`. -/
def checkScroll (scr : Screen) : Screen :=
  if 4000 ≤ scr.cursorOffset then
    ⟨scrollUp scr.videoMemory, 3840, scr.promptMinOffset - 160⟩
  else scr

/-- The two bytes of the cell at `off`. -/
def putCell (scr : Screen) (off : Nat) (c attr : UInt8) : Nat → UInt8 :=
  Function.update (Function.update scr.videoMemory off c) (off + 1) attr

/-- `print_char_color`. -/
def printCharColor (scr : Screen) (c attr : UInt8) : Screen :=
  if c = 10 then
    { scr with cursorOffset := (scr.cursorOffset / 160 + 1) * 160 }.checkScroll
  else if c = 8 then
    if scr.promptMinOffset < scr.cursorOffset then
      { scr with
        videoMemory := scr.putCell (scr.cursorOffset - 2) 32 colorLightGray
        cursorOffset := scr.cursorOffset - 2 }
    else scr
  else if scr.cursorOffset < 4000 then
    { scr with
      videoMemory := scr.putCell scr.cursorOffset c attr
      cursorOffset := scr.cursorOffset + 2 }.checkScroll
  else scr.checkScroll

/-- `print_char`. -/
def printChar (scr : Screen) (c : UInt8) : Screen := scr.printCharColor c colorWhite

end Screen

/-! ## Command history -/

/-- A `char[256]`. -/
abbrev Row : Type := Fin 256 → UInt8

namespace Row

/-- `row[i] = c`. -/
def set (row : Row) (i : Nat) (c : UInt8) : Row := fun j => if j.val = i then c else row j

/-- The C string at the start of the row. A row without NUL, which is never stored, is
read to its end. -/
def chars (row : Row) : List UInt8 := (List.ofFn row).takeWhile (· ≠ 0)

end Row

/-- `cmd_history`, `history_count` and `history_pos`. -/
structure History where
  cmdHistory : Nat → Row
  historyCount : Nat
  historyPos : Int

/-- The initial history. -/
def History.empty : History := ⟨fun _ _ => 0, 0, -1⟩

/-- `add_to_history`. -/
def History.addToHistory (h : History) (cmd : Row) : History :=
  if cmd 0 = 0 then h
  else
    { cmdHistory := fun i =>
        if i = 0 then cmd else if i < 10 then h.cmdHistory (i - 1) else h.cmdHistory i
      historyCount := if h.historyCount < 10 then h.historyCount + 1 else h.historyCount
      historyPos := -1 }

/-- The new `history_pos` of `load_history`. -/
def History.moved (h : History) (direction : Int) : Int :=
  let pos := h.historyPos + direction
  let pos := if pos < 0 then -1 else pos
  if (h.historyCount : Int) ≤ pos then h.historyCount - 1 else pos

/-! ## The line editor -/

/-- The variables that the keyboard handler and the main loop share. -/
structure Terminal where
  screen : Screen
  shiftActive : Bool
  e0Mode : Bool
  commandBuffer : Row
  commandLength : Nat
  commandReady : Bool
  history : History

/-- The loop that erases the line on the screen. -/
def eraseLine : Nat → Screen → Screen
  | 0, scr => scr
  | n + 1, scr => eraseLine n (scr.printChar 8)

namespace Terminal

/-- The loop that copies a history entry into the buffer, from index `i` on. -/
def loadChars : List UInt8 → Nat → Terminal → Terminal
  | [], i, t => { t with commandBuffer := t.commandBuffer.set i 0, commandLength := i }
  | c :: cs, i, t =>
    loadChars cs (i + 1)
      { t with commandBuffer := t.commandBuffer.set i c, screen := t.screen.printChar c }

/-- `load_history`. -/
def loadHistory (t : Terminal) (direction : Int) : Terminal :=
  if t.history.historyCount = 0 then t
  else
    let pos := t.history.moved direction
    let t := { t with
      history := { t.history with historyPos := pos }
      screen := eraseLine t.commandLength t.screen
      commandLength := 0 }
    if pos = -1 then { t with commandBuffer := t.commandBuffer.set 0 0 }
    else t.loadChars (t.history.cmdHistory pos.toNat).chars 0

end Terminal

/-- `scancode_to_ascii_normal`. -/
def scancodeToAsciiNormal : List UInt8 :=
  [0, 27, 49, 50, 51, 52, 53, 54, 55, 56, 57, 48, 45, 61, 8,
    -- tab, the letters from q to p, brackets, Enter
    9, 113, 119, 101, 114, 116, 121, 117, 105, 111, 112, 91, 93, 10,
    -- control, the letters from a to l, semicolon, quotes, shift
    0, 97, 115, 100, 102, 103, 104, 106, 107, 108, 59, 39, 96, 0,
    -- backslash, the letters from z to m, punctuation, shift, star, alt, space
    92, 122, 120, 99, 118, 98, 110, 109, 44, 46, 47, 0, 42, 0, 32]

/-- `scancode_to_ascii_shift`. -/
def scancodeToAsciiShift : List UInt8 :=
  [0, 27, 33, 64, 35, 36, 37, 94, 38, 42, 40, 41, 95, 43, 8,
    9, 81, 87, 69, 82, 84, 89, 85, 73, 79, 80, 123, 125, 10,
    0, 65, 83, 68, 70, 71, 72, 74, 75, 76, 58, 34, 126, 0,
    124, 90, 88, 67, 86, 66, 78, 77, 60, 62, 63, 0, 42, 0, 32]

namespace Terminal

/-- The handler's actions for one character. -/
def handleAscii (t : Terminal) (ascii : UInt8) : Terminal :=
  if ascii = 8 then
    if 0 < t.commandLength then
      { t with
        commandLength := t.commandLength - 1
        commandBuffer := t.commandBuffer.set (t.commandLength - 1) 0
        screen := t.screen.printChar 8 }
    else t
  else if ascii = 10 then
    { t with commandBuffer := t.commandBuffer.set t.commandLength 0, commandReady := true }
  else if ascii ≠ 0 ∧ t.commandLength < 255 then
    { t with
      commandBuffer := t.commandBuffer.set t.commandLength ascii
      commandLength := t.commandLength + 1
      screen := t.screen.printChar ascii }
  else t

/-- `current_layout`. -/
def layout (t : Terminal) : List UInt8 :=
  if t.shiftActive then scancodeToAsciiShift else scancodeToAsciiNormal

/-- `keyboard_isr_handler`, with the scancode that it reads from the port. -/
def keyboardIsrHandler (t : Terminal) (scancode : UInt8) : Terminal :=
  if scancode = 0xE0 then { t with e0Mode := true }
  else if t.e0Mode then
    let t := if scancode = 0x48 then t.loadHistory 1 else t
    let t := if scancode = 0x50 then t.loadHistory (-1) else t
    { t with e0Mode := false }
  else if scancode = 0x2A ∨ scancode = 0x36 then { t with shiftActive := true }
  else if scancode = 0xAA ∨ scancode = 0xB6 then { t with shiftActive := false }
  else if scancode &&& 0x80 = 0 then
    if scancode.toNat < scancodeToAsciiNormal.length then
      t.handleAscii (t.layout.getD scancode.toNat 0)
    else t
  else t

/-- The character of a key, 0 for a key without one. -/
def ascii (t : Terminal) (scancode : UInt8) : UInt8 := t.layout.getD scancode.toNat 0

/-- The key that ends the line. -/
def isEnter (t : Terminal) (scancode : UInt8) : Bool := !t.e0Mode && t.ascii scancode = 10

/-- The characters of the line that is being edited. -/
def line (t : Terminal) : List UInt8 := (List.ofFn t.commandBuffer).take t.commandLength

end Terminal

end Newrex
