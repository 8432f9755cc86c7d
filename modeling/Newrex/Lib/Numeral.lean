import Mathlib.Data.Nat.Digits.Lemmas

/-!
# Numerals

Texts that denote numbers in a positional system, the most significant digit first, over any
alphabet of digits. A program that divides by the base finds the digits in the opposite order,
that of `Nat.digits`, and writes them backwards, which is `spell`.

* `extend_append` and `extend_add`: a reader that goes from left to right.
* `denotes_numeral` and `denotes_padded`: numerals without leading zeros and of a fixed width.
* `denotes_numeral_padded`: a number in two parts, of which the lower one has a fixed width.

The last part is about strings of ASCII digits that an accumulator reads.

* `append_mod`: an accumulator that wraps at `m` holds the value modulo `m`.
-/

namespace Numeral

/-- Characters that stand for the numbers below a base. A number may have several of them;
`char` is the one that is written. -/
structure DigitSet (χ : Type) where
  base : Nat
  one_lt : 1 < base
  value : χ → Option Nat
  value_lt : ∀ c d, value c = some d → d < base
  char : Nat → χ
  value_char : ∀ d, d < base → value (char d) = some d

namespace DigitSet

variable {χ : Type} (D : DigitSet χ)

/-! ## Reading -/

/-- The number that has been read after `text`, when it was `v` before. -/
def extend (v : Nat) : List χ → Option Nat
  | [] => some v
  | c :: text => (D.value c).bind fun d => extend (v * D.base + d) text

/-- The text is a numeral, and `n` its number. -/
def Denotes (text : List χ) (n : Nat) : Prop := text ≠ [] ∧ D.extend 0 text = some n

instance [DecidableEq χ] (text : List χ) (n : Nat) : Decidable (D.Denotes text n) :=
  inferInstanceAs (Decidable (_ ∧ _))

variable {D}

theorem extend_append (v : Nat) (s t : List χ) :
    D.extend v (s ++ t) = (D.extend v s).bind fun u => D.extend u t := by
  induction s generalizing v with
  | nil => rfl
  | cons c s ih =>
    rw [List.cons_append, extend, extend]
    cases D.value c with
    | none => rfl
    | some d => exact ih _

theorem extend_singleton (v : Nat) {c : χ} {d : Nat} (h : D.value c = some d) :
    D.extend v [c] = some (v * D.base + d) := by
  rw [extend, h]
  rfl

/-- A numeral has digits only. -/
theorem value_of_extend {v n : Nat} {text : List χ} (h : D.extend v text = some n) :
    ∀ c ∈ text, D.value c ≠ none := by
  induction text generalizing v with
  | nil => exact fun _ hc => absurd hc List.not_mem_nil
  | cons c text ih =>
    rw [extend] at h
    obtain ⟨d, hd, h⟩ := Option.bind_eq_some_iff.mp h
    exact List.forall_mem_cons.mpr ⟨by rw [hd]; exact Option.some_ne_none d, ih h⟩

variable (D) in
/-- What was read before moves up by one place for each character. -/
theorem extend_add (v w : Nat) (text : List χ) :
    D.extend (v + w) text = (D.extend w text).map (v * D.base ^ text.length + ·) := by
  induction text generalizing v w with
  | nil => simp [extend]
  | cons c text ih =>
    rw [extend, extend]
    cases D.value c with
    | none => rfl
    | some d =>
      have hstep : (v + w) * D.base + d = v * D.base + (w * D.base + d) := by
        rw [Nat.add_mul, Nat.add_assoc]
      rw [Option.bind_some, Option.bind_some, hstep, ih, List.length_cons, Nat.pow_succ,
        Nat.mul_assoc, Nat.mul_comm D.base]

theorem Denotes.append {s t : List χ} {m n : Nat} (hs : D.Denotes s m) (ht : D.Denotes t n) :
    D.Denotes (s ++ t) (m * D.base ^ t.length + n) := by
  refine ⟨List.append_ne_nil_of_left_ne_nil hs.1 t, ?_⟩
  have hadd := D.extend_add m 0 t
  rw [ht.2, Nat.add_zero] at hadd
  rw [extend_append, hs.2, Option.bind_some, hadd]
  rfl

/-! ## Writing -/

variable (D)

/-- The text for digits that are given from the least significant one on. -/
def spell (digits : List Nat) : List χ := (digits.map D.char).reverse

/-- The `w` least significant digits of `n`, the least significant one first. -/
def lowDigits : (w n : Nat) → List Nat
  | 0, _ => []
  | w + 1, n => n % D.base :: lowDigits w (n / D.base)

/-- The numeral without leading zeros. -/
def numeral (n : Nat) : List χ := if n = 0 then [D.char 0] else D.spell (D.base.digits n)

/-- The numeral of `w` digits. -/
def padded (w n : Nat) : List χ := D.spell (D.lowDigits w n)

variable {D}

theorem spell_cons (d : Nat) (digits : List Nat) :
    D.spell (d :: digits) = D.spell digits ++ [D.char d] := by
  rw [spell, List.map_cons, List.reverse_cons]
  rfl

theorem length_spell (digits : List Nat) : (D.spell digits).length = digits.length := by
  rw [spell, List.length_reverse, List.length_map]

/-- A spelled text is read back as the number of its digits. -/
theorem extend_spell {digits : List Nat} (h : ∀ d ∈ digits, d < D.base) :
    D.extend 0 (D.spell digits) = some (Nat.ofDigits D.base digits) := by
  induction digits with
  | nil => rfl
  | cons d digits ih =>
    obtain ⟨hd, hdigits⟩ := List.forall_mem_cons.mp h
    rw [spell_cons, extend_append, ih hdigits, Option.bind_some,
      extend_singleton _ (D.value_char d hd), Nat.ofDigits_cons, Nat.mul_comm, Nat.add_comm]

theorem length_lowDigits (w n : Nat) : (D.lowDigits w n).length = w := by
  induction w generalizing n with
  | zero => rfl
  | succ w ih => rw [lowDigits, List.length_cons, ih]

theorem lowDigits_lt (w n : Nat) : ∀ d ∈ D.lowDigits w n, d < D.base := by
  induction w generalizing n with
  | zero => exact fun _ h => absurd h List.not_mem_nil
  | succ w ih =>
    exact List.forall_mem_cons.mpr ⟨Nat.mod_lt n (Nat.zero_lt_of_lt D.one_lt), ih (n / D.base)⟩

theorem ofDigits_lowDigits (w n : Nat) :
    Nat.ofDigits D.base (D.lowDigits w n) = n % D.base ^ w := by
  induction w generalizing n with
  | zero => rw [Nat.pow_zero, Nat.mod_one]; rfl
  | succ w ih => rw [lowDigits, Nat.ofDigits_cons, ih, Nat.pow_succ', Nat.mod_mul]

variable (D) in
theorem denotes_numeral (n : Nat) : D.Denotes (D.numeral n) n := by
  rw [numeral]
  split
  case isTrue hzero =>
    refine ⟨List.cons_ne_nil _ _, ?_⟩
    rw [extend_singleton _ (D.value_char 0 (Nat.zero_lt_of_lt D.one_lt)), hzero, Nat.zero_mul]
  case isFalse hpos =>
    have hlt : ∀ d ∈ D.base.digits n, d < D.base := fun d => Nat.digits_lt_base D.one_lt
    refine ⟨?_, by rw [extend_spell hlt, Nat.ofDigits_digits]⟩
    rw [← List.length_pos_iff, length_spell, List.length_pos_iff]
    exact Nat.digits_ne_nil_iff_ne_zero.mpr hpos

/-- The length of a numeral that has no more than `w` digits. -/
theorem length_numeral_le {w n : Nat} (hw : 0 < w) (hn : n < D.base ^ w) :
    (D.numeral n).length ≤ w := by
  rw [numeral]
  split
  · exact hw
  · rw [length_spell]
    exact (Nat.digits_length_le_iff D.one_lt n).mpr hn

theorem length_padded (w n : Nat) : (D.padded w n).length = w := by
  rw [padded, length_spell, length_lowDigits]

theorem denotes_padded {w n : Nat} (hw : 0 < w) (hn : n < D.base ^ w) :
    D.Denotes (D.padded w n) n := by
  refine ⟨?_, ?_⟩
  · rw [← List.length_pos_iff, length_padded]
    exact hw
  · rw [padded, extend_spell (lowDigits_lt w n), ofDigits_lowDigits, Nat.mod_eq_of_lt hn]

/-- The lower part needs its leading zeros, and the upper part must not be empty. -/
theorem denotes_numeral_padded {w m n : Nat} (hw : 0 < w) (hn : n < D.base ^ w) :
    D.Denotes (D.numeral m ++ D.padded w n) (m * D.base ^ w + n) := by
  have happend := (D.denotes_numeral m).append (denotes_padded hw hn)
  rwa [length_padded] at happend

end DigitSet

end Numeral

/-! ## Decimal digits in ASCII -/

namespace Decimal

def IsDigit (c : UInt8) : Prop := 48 ≤ c ∧ c ≤ 57

instance (c : UInt8) : Decidable (IsDigit c) := inferInstanceAs (Decidable (_ ∧ _))

/-- The accumulator after one more digit. -/
def append (v : Nat) (c : UInt8) : Nat := v * 10 + (c.toNat - 48)

/-- The value of a digit string, 0 for the empty one. -/
def value (digits : List UInt8) : Nat := digits.foldl append 0

/-- Wrapping at every step is wrapping once. -/
theorem append_mod (m v : Nat) (c : UInt8) : append (v % m) c % m = append v c % m := by
  rw [append, append, Nat.add_mod, Nat.mul_mod, Nat.mod_mod, ← Nat.mul_mod, ← Nat.add_mod]

end Decimal
