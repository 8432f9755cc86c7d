import Mathlib.Tactic.Ring
import Newrex.Net.Basic

/-!
# The checksum of a header that carries it

`ip_checksum` adds 16-bit words and folds the carries back, so that its sum is a number
modulo 65535 (`foldCarries_eq`). A header whose checksum field held 0 when the checksum was
computed, and holds the checksum now, has the checksum 0 (`ipChecksum_store`).
-/

namespace Newrex

open LittleEndian

/-! ## Folding the carries -/

theorem foldCarries_of_lt {sum : Nat} (fuel : Nat) (h : sum < 2 ^ 16) :
    foldCarries fuel sum = sum := by
  have hshift : sum >>> 16 = 0 := by
    rw [Nat.shiftRight_eq_div_pow]
    omega
  cases fuel with
  | zero => rfl
  | succ fuel => rw [foldCarries, if_neg (by simp [hshift])]

theorem foldCarries_step {sum : Nat} (fuel : Nat) (hlow : 2 ^ 16 ≤ sum) (hhigh : sum < 2 ^ 32) :
    foldCarries (fuel + 1) sum = foldCarries fuel (sum % 65536 + sum / 65536) := by
  have hshift : sum >>> 16 = sum / 65536 := Nat.shiftRight_eq_div_pow sum 16
  have hmask : sum &&& 0xFFFF = sum % 65536 := Nat.and_two_pow_sub_one_eq_mod sum 16
  rw [foldCarries, hshift, hmask, if_pos (by omega), add32, Nat.mod_eq_of_lt (by omega)]

/-- The folded sum is the sum modulo 65535, where a multiple other than 0 gives 65535. Two
rounds are enough. -/
theorem foldCarries_eq {sum fuel : Nat} (hpos : 0 < sum) (h : sum < 2 ^ 32) :
    foldCarries (fuel + 2) sum = (sum - 1) % 65535 + 1 := by
  by_cases h1 : sum < 2 ^ 16
  · rw [foldCarries_of_lt _ h1]
    omega
  · rw [foldCarries_step _ (by omega) h]
    by_cases h2 : sum % 65536 + sum / 65536 < 2 ^ 16
    · rw [foldCarries_of_lt _ h2]
      omega
    · -- the first round left a carry of 1, which the second one cannot pass on
      rw [foldCarries_step _ (by omega) (by omega), foldCarries_of_lt _ (by omega)]
      omega

/-! ## The sum of the words -/

theorem load_two_lt (data : Nat → UInt8) (off : Nat) : load data 2 off < 65536 :=
  load_lt data 2 off

theorem sumWords_succ (data : Nat → UInt8) (off n : Nat) :
    sumWords data off (n + 1) = add32 (sumWords data off n) (load data 2 (off + 2 * n)) := by
  rw [sumWords, List.range_succ, List.foldl_append]
  rfl

theorem sumWords_congr {data data' : Nat → UInt8} {off n : Nat}
    (h : ∀ i, i < 2 * n → data (off + i) = data' (off + i)) :
    sumWords data off n = sumWords data' off n := by
  induction n with
  | zero => rfl
  | succ n ih =>
    rw [sumWords_succ, sumWords_succ, ih fun i hi => h i (by omega)]
    congr 1
    apply load_congr
    intro i hi
    rw [Nat.add_assoc]
    exact h _ (by omega)

/-- Fewer than 65536 words do not overflow the sum. -/
theorem sumWords_le (data : Nat → UInt8) (off : Nat) {n : Nat} (hn : n ≤ 65536) :
    sumWords data off n ≤ 65535 * n := by
  induction n with
  | zero => exact Nat.le_refl 0
  | succ n ih =>
    have hword := load_two_lt data (off + 2 * n)
    have hrest := ih (by omega)
    rw [sumWords_succ, add32]
    have hmod := Nat.mod_le (sumWords data off n + load data 2 (off + 2 * n)) (2 ^ 32)
    omega

theorem sumWords_succ_eq_add (data : Nat → UInt8) (off : Nat) {n : Nat} (hn : n < 65536) :
    sumWords data off (n + 1) = sumWords data off n + load data 2 (off + 2 * n) := by
  have hword := load_two_lt data (off + 2 * n)
  have hrest := sumWords_le data off (Nat.le_of_lt hn)
  rw [sumWords_succ, add32, Nat.mod_eq_of_lt (by omega)]

/-- A word stored where 0 was is added to the sum. -/
theorem sumWords_store {data : Nat → UInt8} {off k n c : Nat} (hk : k < n) (hn : n ≤ 65536)
    (hzero : load data 2 (off + 2 * k) = 0) (hc : c < 65536) :
    sumWords (store data 2 (off + 2 * k) c) off n = sumWords data off n + c := by
  induction n with
  | zero => omega
  | succ n ih =>
    rw [sumWords_succ_eq_add _ _ (by omega), sumWords_succ_eq_add _ _ (by omega)]
    rcases Nat.lt_succ_iff_lt_or_eq.mp hk with hlt | rfl
    · rw [ih hlt (by omega), load_store_disjoint (by omega)]
      omega
    · have hbelow : sumWords (store data 2 (off + 2 * k) c) off k = sumWords data off k :=
        sumWords_congr fun i hi => store_outside (by omega)
      have hcut : c % 256 ^ 2 = c := Nat.mod_eq_of_lt hc
      rw [hbelow, load_store_same, hzero, hcut, Nat.add_zero]

/-! ## The checksum -/

/-- The sum that is folded: the words, and the last byte of an odd number of bytes. -/
def checksumSum (data : Nat → UInt8) (off length : Nat) : Nat :=
  sumWords data off (length / 2) +
    if length % 2 = 1 then (data (off + length - 1)).toNat else 0

theorem checksumSum_le (data : Nat → UInt8) (off : Nat) {length : Nat} (h : length ≤ 131070) :
    checksumSum data off length ≤ 65535 * 65535 + 255 := by
  have hwords := sumWords_le data off (n := length / 2) (by omega)
  have hlast := (data (off + length - 1)).toNat_lt
  unfold checksumSum
  split
  · omega
  · omega

theorem ipChecksum_eq (data : Nat → UInt8) (off : Nat) {length : Nat} (h : length ≤ 131070) :
    ipChecksum data off length = 0xFFFF - foldCarries 32 (checksumSum data off length) % 2 ^ 16 := by
  have hle := checksumSum_le data off h
  unfold checksumSum at hle ⊢
  simp only [ipChecksum, Nat.and_one_is_mod]
  rcases Nat.mod_two_eq_zero_or_one length with heven | hodd
  · rw [heven, if_neg (by decide), if_neg (by decide), Nat.add_zero]
  · rw [if_pos hodd] at hle ⊢
    have hadd : add32 (sumWords data off (length / 2)) (data (off + length - 1)).toNat = _ :=
      Nat.mod_eq_of_lt (by omega)
    rw [hodd, if_pos (by decide), hadd]

theorem ipChecksum_lt (data : Nat → UInt8) (off length : Nat) :
    ipChecksum data off length < 65536 := by
  simp only [ipChecksum]
  omega

theorem ipChecksum_congr {data data' : Nat → UInt8} {off length : Nat}
    (h : ∀ i, i < length → data (off + i) = data' (off + i)) :
    ipChecksum data off length = ipChecksum data' off length := by
  have hsum : sumWords data off (length / 2) = sumWords data' off (length / 2) :=
    sumWords_congr fun i hi => h i (by omega)
  have hlast : length &&& 1 ≠ 0 → data (off + length - 1) = data' (off + length - 1) := by
    intro hodd
    rw [Nat.and_one_is_mod] at hodd
    rw [Nat.add_sub_assoc (by omega)]
    exact h _ (by omega)
  simp only [ipChecksum, hsum]
  split
  next hodd => rw [hlast hodd]
  next => rfl

/-- A word stored where 0 was is added to the sum of any number of bytes. -/
theorem checksumSum_store {data : Nat → UInt8} {off length k c : Nat} (hk : 2 * k + 2 ≤ length)
    (hlength : length ≤ 131070) (hzero : load data 2 (off + 2 * k) = 0) (hc : c < 65536) :
    checksumSum (store data 2 (off + 2 * k) c) off length = checksumSum data off length + c := by
  rw [checksumSum, checksumSum, sumWords_store (by omega) (by omega) hzero hc]
  rcases Nat.mod_two_eq_zero_or_one length with heven | hodd
  · rw [heven, if_neg (by decide), if_neg (by decide)]
    rfl
  · rw [if_pos hodd, if_pos hodd, store_outside (by omega)]
    exact Nat.add_right_comm _ _ _

/-- Bytes whose checksum was stored in place of a 0 among them have the checksum 0. -/
theorem ipChecksum_store {data : Nat → UInt8} {off p length k : Nat} (hp : p = off + 2 * k)
    (hk : 2 * k + 2 ≤ length) (hlength : length ≤ 131070) (hzero : load data 2 p = 0) :
    ipChecksum (store data 2 p (ipChecksum data off length)) off length = 0 := by
  subst hp
  have hbound := checksumSum_le data off hlength
  have hlt := ipChecksum_lt data off length
  rw [ipChecksum_eq _ _ hlength, checksumSum_store hk hlength hzero hlt]
  have hsum := ipChecksum_eq data off hlength
  rcases Nat.eq_zero_or_pos (checksumSum data off length) with h0 | hpos
  · -- nothing but zeros, whose checksum is the largest word
    rw [h0, foldCarries_of_lt 32 (by decide)] at hsum
    rw [h0, hsum]
    decide
  · rw [foldCarries_eq hpos (by omega)] at hsum
    rw [foldCarries_eq (by omega) (by omega), hsum]
    omega

end Newrex
