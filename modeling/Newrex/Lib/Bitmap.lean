import Mathlib.Data.Nat.Basic
import Mathlib.Data.Nat.Count
import Mathlib.Logic.Function.Basic

/-!
# Bitmaps in byte sequences

Bit `i` of a byte sequence is bit `i % 8` of byte `i / 8`. `mark` and `unmark`
are the byte expressions `b | (1 << k)` and `b & ~(1 << k)`, and `isClear` is
the test `!(b & (1 << k))`; the lemmas say what each does to every bit, so
that a client never looks inside a byte. `setBit` and `clearBit` are the two
assignments in a byte sequence, with the lemmas about every bit and about the
number of set bits.
-/

namespace Bitmap

/-- The mask `1 << k` of a byte. -/
def mask (k : Nat) : UInt8 := 1 <<< UInt8.ofNat k

/-- The test `!(b & (1 << k))`. -/
def isClear (b : UInt8) (k : Nat) : Bool := (b &&& mask k) == 0

/-- `b | (1 << k)`. -/
def mark (b : UInt8) (k : Nat) : UInt8 := b ||| mask k

/-- `b & ~(1 << k)`. -/
def unmark (b : UInt8) (k : Nat) : UInt8 := b &&& ~~~mask k

/-- Bit `k` of a byte. -/
def bitOf (b : UInt8) (k : Nat) : Bool := b.toBitVec.getLsbD k

/-- Bit `i` of a byte sequence. -/
def test (b : Nat → UInt8) (i : Nat) : Bool := bitOf (b (i / 8)) (i % 8)

/-- A byte is its eight bits. -/
theorem eq_of_bitOf_eq {a b : UInt8} (h : ∀ k, k < 8 → bitOf a k = bitOf b k) : a = b :=
  UInt8.toBitVec_inj.mp (BitVec.eq_of_getLsbD_eq h)

theorem bitOf_mask {k j : Nat} (hk : k < 8) : bitOf (mask k) j = decide (j = k) := by
  have hshift : ((UInt8.ofNat k).toBitVec % 8).toNat = k := by
    simp only [BitVec.toNat_umod, UInt8.toNat_toBitVec, UInt8.toNat_ofNat',
      show (8 : BitVec 8).toNat = 8 from rfl]
    omega
  simp only [bitOf, mask, UInt8.toBitVec_shiftLeft, BitVec.shiftLeft_eq', BitVec.getLsbD_shiftLeft,
    hshift]
  by_cases hj : j = k
  · subst hj
    simp [hk]
  · by_cases hlt : j < k
    · simp [hlt, hj]
    · have : j - k ≠ 0 := by omega
      simp [hlt, hj, this]

theorem bitOf_mark {b : UInt8} {k j : Nat} (hk : k < 8) :
    bitOf (mark b k) j = (bitOf b j || decide (j = k)) := by
  rw [← bitOf_mask hk]
  simp [bitOf, mark]

theorem bitOf_unmark {b : UInt8} {k j : Nat} (hk : k < 8) (hj : j < 8) :
    bitOf (unmark b k) j = (bitOf b j && !decide (j = k)) := by
  rw [← bitOf_mask hk]
  simp [bitOf, unmark, hj]

theorem isClear_eq {b : UInt8} {k : Nat} (hk : k < 8) : isClear b k = !bitOf b k := by
  have hz : (b &&& mask k = 0) ↔ bitOf b k = false := by
    constructor
    · intro h
      have hk1 : bitOf (b &&& mask k) k = bitOf 0 k := by rw [h]
      have hm : bitOf (mask k) k = true := by rw [bitOf_mask hk]; exact decide_eq_true rfl
      rw [bitOf] at hm
      simpa [bitOf, hm] using hk1
    · intro h
      refine eq_of_bitOf_eq fun j _ => ?_
      have hm : (mask k).toBitVec.getLsbD j = decide (j = k) := bitOf_mask hk
      rw [bitOf, UInt8.toBitVec_and, BitVec.getLsbD_and, hm]
      by_cases hjk : j = k
      · subst hjk
        have : b.toBitVec.getLsbD j = false := h
        simp [this, bitOf]
      · simp [hjk, bitOf]
  cases hb : bitOf b k with
  | false => simp [isClear, hz.mpr hb]
  | true =>
    have : ¬ (b &&& mask k = 0) := fun h => by simp [hz.mp h] at hb
    simp [isClear, this]

/-- A byte other than `0xFF` has a clear bit, and a byte `0xFF` has none. -/
theorem eq_ff_iff {b : UInt8} : b = 0xFF ↔ ∀ k, k < 8 → bitOf b k = true := by
  have hff : ∀ k : Fin 8, bitOf 0xFF k = true := by decide
  constructor
  · rintro rfl k hk
    exact hff ⟨k, hk⟩
  · intro h
    refine eq_of_bitOf_eq fun j hj => ?_
    rw [hff ⟨j, hj⟩]
    exact h j hj

/-! ## Assignments -/

/-- `b[i / 8] |= 1 << (i % 8)`. -/
def setBit (b : Nat → UInt8) (i : Nat) : Nat → UInt8 :=
  Function.update b (i / 8) (mark (b (i / 8)) (i % 8))

/-- `b[i / 8] &= ~(1 << (i % 8))`. -/
def clearBit (b : Nat → UInt8) (i : Nat) : Nat → UInt8 :=
  Function.update b (i / 8) (unmark (b (i / 8)) (i % 8))

variable {b : Nat → UInt8} {i n : Nat}

theorem test_setBit (j : Nat) : test (setBit b i) j = (test b j || decide (j = i)) := by
  unfold test setBit
  by_cases hbyte : j / 8 = i / 8
  · rw [hbyte, Function.update_self, bitOf_mark (Nat.mod_lt _ (by decide))]
    congr 1
    rw [decide_eq_decide]
    omega
  · have hne : j ≠ i := fun h => hbyte (by rw [h])
    rw [Function.update_of_ne hbyte, decide_eq_false hne, Bool.or_false]

theorem test_clearBit (j : Nat) : test (clearBit b i) j = (test b j && !decide (j = i)) := by
  unfold test clearBit
  by_cases hbyte : j / 8 = i / 8
  · rw [hbyte, Function.update_self,
      bitOf_unmark (Nat.mod_lt _ (by decide)) (Nat.mod_lt _ (by decide))]
    congr 2
    rw [decide_eq_decide]
    omega
  · have hne : j ≠ i := fun h => hbyte (by rw [h])
    rw [Function.update_of_ne hbyte, decide_eq_false hne, Bool.not_false, Bool.and_true]

/-! ## Counting -/

/-- The number of set bits below `n`. -/
def setBits (b : Nat → UInt8) (n : Nat) : Nat := Nat.count (fun i => test b i = true) n

/-- The number of clear bits below `n`. -/
def clearBits (b : Nat → UInt8) (n : Nat) : Nat := Nat.count (fun i => test b i = false) n

theorem setBits_add_clearBits (b : Nat → UInt8) (n : Nat) : setBits b n + clearBits b n = n := by
  induction n with
  | zero => simp [setBits, clearBits]
  | succ n ih =>
    rw [setBits, clearBits] at ih
    rw [setBits, clearBits, Nat.count_succ, Nat.count_succ]
    cases test b n <;> simp <;> omega

theorem clearBits_eq_zero {b : Nat → UInt8} {n : Nat} :
    clearBits b n = 0 ↔ ∀ i, i < n → test b i = true := by
  rw [clearBits, Nat.count_iff_forall_not]
  simp only [Bool.not_eq_false]

theorem setBits_le (b : Nat → UInt8) (n : Nat) : setBits b n ≤ n := Nat.count_le _

/-- A bit that was clear is counted once it is set. -/
theorem setBits_setBit (hi : i < n) (hclear : test b i = false) :
    setBits (setBit b i) n = setBits b n + 1 := by
  simp only [setBits, Nat.count_eq_card_filter_range]
  rw [← Finset.card_insert_of_notMem (a := i) (by simp [hclear])]
  congr 1
  ext j
  simp only [test_setBit, Bool.or_eq_true, decide_eq_true_eq, Finset.mem_filter, Finset.mem_range,
    Finset.mem_insert]
  constructor
  · rintro ⟨hj, hset | heq⟩
    · exact Or.inr ⟨hj, hset⟩
    · exact Or.inl heq
  · rintro (rfl | ⟨hj, hset⟩)
    · exact ⟨hi, Or.inr rfl⟩
    · exact ⟨hj, Or.inl hset⟩

/-- A bit that was set is counted no more once it is cleared. -/
theorem setBits_clearBit (hi : i < n) (hset : test b i = true) :
    setBits (clearBit b i) n + 1 = setBits b n := by
  have hagain : ∀ j, test (setBit (clearBit b i) i) j = test b j := by
    intro j
    rw [test_setBit, test_clearBit]
    by_cases hj : j = i
    · rw [hj, hset]
      simp
    · simp [hj]
  have hclear : test (clearBit b i) i = false := by simp [test_clearBit]
  rw [← setBits_setBit hi hclear, setBits, setBits]
  simp only [hagain]

end Bitmap
