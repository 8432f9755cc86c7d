import Mathlib.Data.List.TakeWhile

/-!
# Console output and C strings

The kernel's print routines are modelled as a log of their calls, oldest
first. A string argument of a command is a C string: the characters in front
of its terminating NUL.
-/

namespace Newrex

def colorLightGray : UInt8 := 0x07
def colorLightGreen : UInt8 := 0x0A
def colorLightCyan : UInt8 := 0x0B
def colorLightRed : UInt8 := 0x0C
def colorYellow : UInt8 := 0x0E
def colorWhite : UInt8 := 0x0F

/-- One call of a console routine. -/
inductive Print
  /-- `print_string` or `print_string_color` of a string literal. -/
  | literal (text : String) (color : UInt8)
  /-- `print_string` or `print_string_color` of a character buffer. -/
  | string (text : List UInt8) (color : UInt8)
  /-- `print_char`. -/
  | char (c : UInt8)
  /-- `print_int`. -/
  | int (num : Int)
deriving DecidableEq, Repr

/-- The characters that a call prints. `print_int` writes the digits of a positive number
and a 0, and nothing for a negative number. -/
def Print.characters : Print → List UInt8
  | .literal text _ => text.toList.map fun c => UInt8.ofNat c.toNat
  | .string text _ => text
  | .char c => [c]
  | .int num =>
    if num < 0 then [] else (Nat.toDigits 10 num.toNat).map fun c => UInt8.ofNat c.toNat

/-- A C string: its characters, none of which is NUL. -/
structure CString where
  chars : List UInt8
  nulFree : ∀ c ∈ chars, c ≠ 0
deriving DecidableEq

/-- The string in front of a NUL. -/
theorem takeWhile_terminated {l rest : List UInt8} (h : ∀ c ∈ l, c ≠ 0) :
    (l ++ 0 :: rest).takeWhile (· ≠ 0) = l := by
  rw [List.takeWhile_append_of_pos fun c hc => by simpa using h c hc,
    List.takeWhile_cons_of_neg (by simp), List.append_nil]

/-- The C string at the start of a buffer. -/
def CString.ofBuffer (buf : List UInt8) : CString :=
  ⟨buf.takeWhile (· ≠ 0), fun _ hc => by simpa using List.mem_takeWhile_imp hc⟩

/-- A string literal of ASCII characters. -/
def CString.ofLiteral (s : String) : CString :=
  .ofBuffer (s.toList.map fun c => UInt8.ofNat c.toNat)

/-- The C string `s` with the characters `p` in front of the rest. -/
def CString.append (s t : CString) : CString :=
  ⟨s.chars ++ t.chars, fun c hc => (List.mem_append.mp hc).elim (s.nulFree c) (t.nulFree c)⟩

end Newrex
