import Mathlib.Data.List.GetD
import Newrex.Lib.OnesComplement
import Newrex.Net.Checksum

/-!
# The Internet checksum

`ip_checksum` adds the words of a little-endian machine, while the checksum is defined on
big-endian words. The bytes that it stores are the same: exchanging the bytes of a number is
multiplying it by 256 modulo 65535.

* `internetChecksum`: the definition, on big-endian words with a zero pad byte;
* `modEq_checksumSum`: the two sums, modulo 65535;
* `ip_checksum_is_internet_checksum`: the bytes agree, nothing overflows, the carries are
  folded, and a stored checksum makes the checksum 0.
-/

namespace Newrex

open LittleEndian OnesComplement

/-- The big-endian words of a byte sequence. A sequence of odd length is padded with a zero
byte. -/
def bigEndianWords (bytes : List UInt8) : List Nat :=
  (List.range ((bytes.length + 1) / 2)).map fun i =>
    256 * (bytes.getD (2 * i) 0).toNat + (bytes.getD (2 * i + 1) 0).toNat

/-- The checksum of RFC 1071: the one's complement of the one's complement sum of the words. -/
def internetChecksum (bytes : List UInt8) : Nat :=
  0xFFFF - (bigEndianWords bytes).foldl (addCarry 0xFFFF) 0

/-- The `length` bytes from `off` on. -/
def bytesFrom (data : Nat → UInt8) (off length : Nat) : List UInt8 :=
  (List.range length).map fun i => data (off + i)

theorem getD_bytesFrom (data : Nat → UInt8) (off : Nat) {length i : Nat} :
    (bytesFrom data off length).getD i 0 = if i < length then data (off + i) else 0 := by
  by_cases hi : i < length
  · rw [if_pos hi, List.getD_eq_getElem _ _ (by simpa [bytesFrom] using hi)]
    simp [bytesFrom]
  · rw [if_neg hi, List.getD_eq_default _ _ (by simpa [bytesFrom] using hi)]

theorem bigEndianWords_le (bytes : List UInt8) : ∀ w ∈ bigEndianWords bytes, w ≤ 0xFFFF := by
  intro w hw
  obtain ⟨i, -, rfl⟩ := List.mem_map.mp hw
  have hhigh := (bytes.getD (2 * i) 0).toNat_lt
  have hlow := (bytes.getD (2 * i + 1) 0).toNat_lt
  omega

/-! ## The two sums -/

/-- The sum of the first `n` whole words, in big-endian order. -/
def bigEndianSum (data : Nat → UInt8) (off n : Nat) : Nat :=
  ((List.range n).map fun i =>
    256 * (data (off + 2 * i)).toNat + (data (off + 2 * i + 1)).toNat).sum

theorem bigEndianSum_succ (data : Nat → UInt8) (off n : Nat) :
    bigEndianSum data off (n + 1) = bigEndianSum data off n +
      (256 * (data (off + 2 * n)).toNat + (data (off + 2 * n + 1)).toNat) := by
  rw [bigEndianSum, List.range_succ, List.map_append, List.sum_append]
  rfl

theorem sum_bigEndianWords (data : Nat → UInt8) (off length : Nat) :
    (bigEndianWords (bytesFrom data off length)).sum =
      bigEndianSum data off (length / 2) +
        if length % 2 = 1 then 256 * (data (off + length - 1)).toNat else 0 := by
  have hlength : (bytesFrom data off length).length = length := by simp [bytesFrom]
  have hwhole : ((List.range (length / 2)).map fun i =>
      256 * ((bytesFrom data off length).getD (2 * i) 0).toNat +
        ((bytesFrom data off length).getD (2 * i + 1) 0).toNat).sum =
      bigEndianSum data off (length / 2) := by
    rw [bigEndianSum]
    congr 1
    refine List.map_congr_left fun i hi => ?_
    rw [List.mem_range] at hi
    rw [getD_bytesFrom, getD_bytesFrom, if_pos (by omega), if_pos (by omega), Nat.add_assoc]
  rw [bigEndianWords, hlength]
  rcases Nat.mod_two_eq_zero_or_one length with heven | hodd
  · have hcount : (length + 1) / 2 = length / 2 := by omega
    rw [hcount, hwhole, if_neg (by omega)]
    rfl
  · have hcount : (length + 1) / 2 = length / 2 + 1 := by omega
    have hlast : off + 2 * (length / 2) = off + length - 1 := by omega
    rw [hcount, List.range_succ, List.map_append, List.sum_append, hwhole, if_pos hodd,
      List.map_singleton, List.sum_singleton, getD_bytesFrom, getD_bytesFrom, if_pos (by omega),
      if_neg (by omega), hlast]
    rfl

/-- The words in the two orders of bytes, modulo 65535. -/
theorem modEq_words (data : Nat → UInt8) (off : Nat) {n : Nat} (hn : n ≤ 65536) :
    bigEndianSum data off n ≡ 256 * sumWords data off n [MOD 65535] ∧
      (bigEndianSum data off n = 0 ↔ sumWords data off n = 0) := by
  induction n with
  | zero => exact ⟨rfl, iff_of_true rfl rfl⟩
  | succ n ih =>
    obtain ⟨hmod, hzero⟩ := ih (by omega)
    have hword : load data 2 (off + 2 * n) =
        (data (off + 2 * n)).toNat + 256 * (data (off + 2 * n + 1)).toNat := by simp [load]
    rw [bigEndianSum_succ, sumWords_succ_eq_add data off (by omega), hword]
    unfold Nat.ModEq at hmod ⊢
    constructor
    · omega
    · omega

/-- Both sums with the last byte of an odd number of bytes. -/
theorem modEq_checksumSum (data : Nat → UInt8) (off : Nat) {length : Nat}
    (hlength : length ≤ 131070) :
    (bigEndianWords (bytesFrom data off length)).sum ≡ 256 * checksumSum data off length
        [MOD 65535] ∧
      ((bigEndianWords (bytesFrom data off length)).sum = 0 ↔ checksumSum data off length = 0) := by
  obtain ⟨hmod, hzero⟩ := modEq_words data off (n := length / 2) (by omega)
  rw [sum_bigEndianWords, checksumSum]
  split
  · rw [Nat.mul_add]
    exact ⟨hmod.add_right _, by omega⟩
  · exact ⟨hmod, hzero⟩

/-! ## Exchanged bytes -/

/-- The two bytes of a number exchanged. -/
def swapBytes (r : Nat) : Nat := 256 * (r % 256) + r / 256

theorem swapBytes_div {r : Nat} (hr : r < 65536) : swapBytes r / 256 = r % 256 := by
  have hhigh : r / 256 < 256 := by omega
  rw [swapBytes, Nat.mul_add_div (by decide), Nat.div_eq_of_lt hhigh, Nat.add_zero]

theorem swapBytes_mod {r : Nat} (hr : r < 65536) : swapBytes r % 256 = r / 256 := by
  have hhigh : r / 256 < 256 := by omega
  rw [swapBytes, Nat.mul_add_mod, Nat.mod_eq_of_lt hhigh]

/-- The complement can be taken before or after. -/
theorem complement_swapBytes {r : Nat} (hr : r ≤ 0xFFFF) :
    0xFFFF - swapBytes r = swapBytes (0xFFFF - r) := by
  have hhigh : (0xFFFF - r) / 256 = 255 - r / 256 := by omega
  have hlow : (0xFFFF - r) % 256 = 255 - r % 256 := by omega
  rw [swapBytes, swapBytes, hhigh, hlow]
  omega

theorem reduce_swapBytes {a b : Nat} (h : b ≡ 256 * a [MOD 65535]) (hzero : b = 0 ↔ a = 0) :
    reduce 65535 b = swapBytes (reduce 65535 a) := by
  rcases Nat.eq_zero_or_pos a with rfl | ha
  · rw [hzero.mpr rfl]
    rfl
  · have hb : 0 < b := Nat.pos_of_ne_zero fun hb => absurd (hzero.mp hb) (by omega)
    have hpos := reduce_pos (m := 65535) ha
    have hle := reduce_le (m := 65535) (by decide) a
    have hbound : 0 < swapBytes (reduce 65535 a) ∧ swapBytes (reduce 65535 a) ≤ 65535 := by
      unfold swapBytes
      omega
    have hswap : swapBytes (reduce 65535 a) ≡ 256 * reduce 65535 a [MOD 65535] := by
      unfold Nat.ModEq swapBytes
      omega
    have hsame : swapBytes (reduce 65535 a) ≡ b [MOD 65535] :=
      (hswap.trans ((reduce_modEq 65535 a).mul_left 256)).trans h.symm
    calc reduce 65535 b = reduce 65535 (swapBytes (reduce 65535 a)) :=
          reduce_eq_of_modEq hb hbound.1 hsame.symm
      _ = swapBytes (reduce 65535 a) := reduce_of_le hbound.2

/-- The loop that adds the carries takes a 32-bit sum to its one's complement number. -/
theorem foldCarries_eq_reduce {sum : Nat} (fuel : Nat) (h : sum < 2 ^ 32) :
    foldCarries (fuel + 2) sum = reduce 65535 sum := by
  rcases Nat.eq_zero_or_pos sum with rfl | hpos
  · exact foldCarries_of_lt _ (by decide)
  · rw [reduce, if_neg (by omega), foldCarries_eq hpos h]

/-- The checksum of the definition is that of the code with its bytes exchanged. -/
theorem internetChecksum_eq_swapBytes (data : Nat → UInt8) (off : Nat) {length : Nat}
    (hlength : length ≤ 131070) :
    internetChecksum (bytesFrom data off length) = swapBytes (ipChecksum data off length) := by
  have hbound := checksumSum_le data off hlength
  obtain ⟨hmod, hzero⟩ := modEq_checksumSum data off hlength
  have hle := reduce_le (m := 65535) (by decide) (checksumSum data off length)
  rw [ipChecksum_eq data off hlength, foldCarries_eq_reduce 30 (by omega),
    Nat.mod_eq_of_lt (by omega), internetChecksum,
    foldl_addCarry (by decide) (bigEndianWords_le _), reduce_swapBytes hmod hzero,
    complement_swapBytes hle]

/-- The sum of a prefix of the words does not overflow when the next word is added. -/
theorem sumWords_add_lt (data : Nat → UInt8) (off : Nat) {n : Nat} (hn : n ≤ 65535) :
    sumWords data off n + load data 2 (off + 2 * n) < 2 ^ 32 := by
  have hrest := sumWords_le data off (n := n) (by omega)
  have hword := load_two_lt data (off + 2 * n)
  omega

/-- `ip_checksum` stores the bytes of the Internet checksum. Its accumulator does not overflow,
the loop over the carries ends, and a checksum that is stored into a field of the sequence,
computed with 0 in the field, makes the checksum of the sequence 0. -/
theorem ip_checksum_is_internet_checksum (data : Nat → UInt8) (off length : Nat)
    (hlength : length ≤ 65535) :
    (∀ (memory : Nat → UInt8) (p : Nat),
      store memory 2 p (ipChecksum data off length) p =
          UInt8.ofNat (internetChecksum (bytesFrom data off length) / 256) ∧
        store memory 2 p (ipChecksum data off length) (p + 1) =
          UInt8.ofNat (internetChecksum (bytesFrom data off length) % 256)) ∧
    (∀ i < length / 2, sumWords data off i + load data 2 (off + 2 * i) < 2 ^ 32) ∧
    sumWords data off (length / 2) + (data (off + length - 1)).toNat < 2 ^ 32 ∧
    (∀ fuel, 2 ≤ fuel → foldCarries fuel (checksumSum data off length) >>> 16 = 0 ∧
      foldCarries fuel (checksumSum data off length) =
        foldCarries 32 (checksumSum data off length)) ∧
    ∀ k, 2 * k + 2 ≤ length →
      ipChecksum (store data 2 (off + 2 * k)
        (ipChecksum (store data 2 (off + 2 * k) 0) off length)) off length = 0 := by
  have hlength' : length ≤ 131070 := by omega
  have hbound := checksumSum_le data off hlength'
  refine ⟨fun memory p => ?_, fun i hi => sumWords_add_lt data off (by omega), ?_, ?_, ?_⟩
  · have hswap := internetChecksum_eq_swapBytes data off hlength'
    have hlt := ipChecksum_lt data off length
    have hlow : store memory 2 p (ipChecksum data off length) p =
        byteOf (ipChecksum data off length) 0 := store_inside (show 0 < 2 by decide)
    have hhigh : store memory 2 p (ipChecksum data off length) (p + 1) =
        byteOf (ipChecksum data off length) 1 := store_inside (show 1 < 2 by decide)
    rw [hlow, hhigh, hswap, swapBytes_div hlt, swapBytes_mod hlt, ← UInt8.toNat_inj, byteOf_toNat,
      UInt8.toNat_ofNat', Nat.pow_zero, Nat.div_one, Nat.mod_mod]
    exact ⟨rfl, by rw [byteOf, Nat.pow_one]⟩
  · have hrest := sumWords_le data off (n := length / 2) (by omega)
    have hlast := (data (off + length - 1)).toNat_lt
    omega
  · intro fuel hfuel
    obtain ⟨more, rfl⟩ := Nat.exists_eq_add_of_le' hfuel
    have hle := reduce_le (m := 65535) (by decide) (checksumSum data off length)
    rw [foldCarries_eq_reduce more (by omega), foldCarries_eq_reduce 30 (by omega),
      Nat.shiftRight_eq_div_pow]
    exact ⟨Nat.div_eq_of_lt (by omega), rfl⟩
  · intro k hk
    have hzero : load (store data 2 (off + 2 * k) 0) 2 (off + 2 * k) = 0 := by
      rw [load_store_same, Nat.zero_mod]
    have hstored := ipChecksum_store (rfl : off + 2 * k = off + 2 * k) hk hlength' hzero
    rwa [store_store] at hstored

/-- Three bytes and an empty field. -/
theorem ip_checksum_sample :
    let data : Nat → UInt8 := fun i => [0x45, 0x00, 0, 0, 0x1C].getD i 0
    internetChecksum (bytesFrom data 0 5) = 0x9EFF ∧ ipChecksum data 0 5 = 0xFF9E ∧
      ipChecksum (store data 2 2 (ipChecksum (store data 2 2 0) 0 5)) 0 5 = 0 := by
  intro data
  obtain ⟨-, -, -, -, hstored⟩ := ip_checksum_is_internet_checksum data 0 5 (by decide)
  exact ⟨by decide, by decide, hstored 1 (by decide)⟩

end Newrex
