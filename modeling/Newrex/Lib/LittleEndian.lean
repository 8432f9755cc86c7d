import Mathlib.Data.Nat.Basic
import Mathlib.Tactic.Ring

/-!
# Little-endian numbers in byte sequences

A byte sequence is a function `Nat → UInt8`. `load b n off` is the number that
the `n` bytes from `off` spell, lowest byte first, and `store b n off v` writes
the `n` low bytes of `v` there. The two rules a client needs are
`load_store_same` and `load_store_disjoint`; `load_of_bytes` reads a field of
a record whose bytes are given by `byteOf`.
-/

namespace LittleEndian

/-- Byte `i` of the little-endian form of `v`. -/
def byteOf (v i : Nat) : UInt8 := UInt8.ofNat (v / 256 ^ i)

/-- The number spelled by the `n` bytes from `off`. -/
def load (b : Nat → UInt8) : Nat → Nat → Nat
  | 0, _ => 0
  | n + 1, off => (b off).toNat + 256 * load b n (off + 1)

/-- The byte sequence `b` with the `n` low bytes of `v` written at `off`. -/
def store (b : Nat → UInt8) (n off v : Nat) : Nat → UInt8 := fun p =>
  if off ≤ p ∧ p < off + n then byteOf v (p - off) else b p

/-- The byte sequence with `count` bytes from `dest` on set to `val`. -/
def memset (b : Nat → UInt8) (dest : Nat) (val : UInt8) (count : Nat) : Nat → UInt8 := fun p =>
  if dest ≤ p ∧ p < dest + count then val else b p

/-- The byte sequence with the bytes of a list written from `off` on. -/
def storeBytes (b : Nat → UInt8) (off : Nat) (bytes : List UInt8) : Nat → UInt8 := fun p =>
  if off ≤ p ∧ p < off + bytes.length then bytes.getD (p - off) 0 else b p

/-- A number below `2 ^ k` under the bits of `a`. -/
theorem shiftLeft_or {a b k : Nat} (h : b < 2 ^ k) : a <<< k ||| b = a * 2 ^ k + b := by
  rw [← Nat.shiftLeft_add_eq_or_of_lt h, Nat.shiftLeft_eq]

theorem shiftLeft_or_shiftLeft {a b k : Nat} (h : b < 2 ^ k) (j : Nat) :
    a <<< (k + j) ||| b <<< j = (a * 2 ^ k + b) <<< j := by
  rw [Nat.shiftLeft_add, ← Nat.shiftLeft_or_distrib, shiftLeft_or h]

/-- A load depends only on the bytes it covers. -/
theorem load_congr {b c : Nat → UInt8} {n off : Nat}
    (h : ∀ i, i < n → b (off + i) = c (off + i)) : load b n off = load c n off := by
  induction n generalizing off with
  | zero => rfl
  | succ n ih =>
    have h0 : b off = c off := h 0 (Nat.succ_pos n)
    have hs : load b n (off + 1) = load c n (off + 1) := by
      apply ih
      intro i hi
      have := h (i + 1) (Nat.succ_lt_succ hi)
      rwa [Nat.add_comm i 1, ← Nat.add_assoc] at this
    simp only [load, h0, hs]

theorem load_lt (b : Nat → UInt8) (n off : Nat) : load b n off < 256 ^ n := by
  induction n generalizing off with
  | zero => exact Nat.one_pos
  | succ n ih =>
    have hbyte := (b off).toNat_lt
    have hrest := ih (off + 1)
    rw [load, Nat.pow_succ]
    omega

theorem byteOf_toNat (v i : Nat) : (byteOf v i).toNat = v / 256 ^ i % 256 := by
  simp [byteOf]

/-- Bytes `j, j + 1, …` of `v`, found from `off` on, spell `v / 256 ^ j`. -/
theorem load_shifted {b : Nat → UInt8} {n off v j : Nat}
    (h : ∀ i, i < n → b (off + i) = byteOf v (j + i)) :
    load b n off = v / 256 ^ j % 256 ^ n := by
  induction n generalizing off j with
  | zero => simp [load, Nat.mod_one]
  | succ n ih =>
    have h0 : (b off).toNat = v / 256 ^ j % 256 := by
      have := h 0 (Nat.succ_pos n)
      rw [Nat.add_zero, Nat.add_zero] at this
      rw [this, byteOf_toNat]
    have hs : load b n (off + 1) = v / 256 ^ (j + 1) % 256 ^ n := by
      apply ih
      intro i hi
      have := h (i + 1) (Nat.succ_lt_succ hi)
      rwa [Nat.add_comm i 1, ← Nat.add_assoc, ← Nat.add_assoc] at this
    rw [load, h0, hs, Nat.pow_succ, ← Nat.div_div_eq_div_mul, Nat.pow_succ, Nat.mul_comm (256 ^ n),
      Nat.mod_mul]

/-- A field whose bytes are those of `v` reads back as `v`, cut to its width. -/
theorem load_of_bytes {b : Nat → UInt8} {n off v : Nat}
    (h : ∀ i, i < n → b (off + i) = byteOf v i) : load b n off = v % 256 ^ n := by
  have hj : ∀ i, i < n → b (off + i) = byteOf v (0 + i) := by
    intro i hi
    rw [Nat.zero_add]
    exact h i hi
  have := load_shifted hj
  rwa [Nat.pow_zero, Nat.div_one] at this

/-- The bytes of a loaded number are the bytes it was loaded from. -/
theorem byteOf_load (b : Nat → UInt8) {n i : Nat} (off : Nat) (hi : i < n) :
    byteOf (load b n off) i = b (off + i) := by
  induction n generalizing off i with
  | zero => omega
  | succ n ih =>
    have hlt := (b off).toNat_lt
    cases i with
    | zero =>
      refine UInt8.toNat.inj ?_
      rw [byteOf_toNat, load, Nat.pow_zero, Nat.div_one]
      show _ = (b off).toNat
      omega
    | succ i =>
      have hdiv : load b (n + 1) off / 256 ^ (i + 1) = load b n (off + 1) / 256 ^ i := by
        rw [load, Nat.pow_succ', ← Nat.div_div_eq_div_mul]
        congr 1
        omega
      rw [byteOf, hdiv, ← byteOf, ih (off + 1) (by omega), Nat.add_assoc, Nat.add_comm 1 i]

theorem store_inside {b : Nat → UInt8} {n off v i : Nat} (hi : i < n) :
    store b n off v (off + i) = byteOf v i := by
  simp only [store]
  rw [if_pos ⟨Nat.le_add_right _ _, Nat.add_lt_add_left hi _⟩, Nat.add_sub_cancel_left]

theorem load_store_same (b : Nat → UInt8) (n off v : Nat) :
    load (store b n off v) n off = v % 256 ^ n :=
  load_of_bytes fun _ hi => store_inside hi

/-- A store does not change a load from a disjoint range. -/
theorem load_store_disjoint {b : Nat → UInt8} {n off v m a : Nat}
    (h : a + m ≤ off ∨ off + n ≤ a) : load (store b n off v) m a = load b m a := by
  apply load_congr
  intro i hi
  simp only [store]
  rw [if_neg]
  omega

theorem store_outside {b : Nat → UInt8} {n off v p : Nat} (h : p < off ∨ off + n ≤ p) :
    store b n off v p = b p := by
  simp only [store]
  rw [if_neg]
  omega

/-- The later of two stores to the same bytes counts. -/
theorem store_store (b : Nat → UInt8) (n off v w : Nat) :
    store (store b n off v) n off w = store b n off w := by
  funext p
  simp only [store]
  split <;> rfl

/-- A store of what is there changes nothing. -/
theorem store_load {b : Nat → UInt8} {n off v : Nat} (h : load b n off = v) :
    store b n off v = b := by
  subst h
  funext p
  by_cases hp : off ≤ p ∧ p < off + n
  · obtain ⟨i, rfl⟩ := Nat.exists_eq_add_of_le hp.1
    have hi : i < n := by omega
    rw [store_inside hi, byteOf_load b off hi]
  · exact if_neg hp

theorem memset_outside {b : Nat → UInt8} {dest count p : Nat} {val : UInt8}
    (h : p < dest ∨ dest + count ≤ p) : memset b dest val count p = b p := if_neg (by omega)

theorem storeBytes_inside {b : Nat → UInt8} {off i : Nat} {bytes : List UInt8}
    (h : i < bytes.length) : storeBytes b off bytes (off + i) = bytes.getD i 0 := by
  have hin : off ≤ off + i ∧ off + i < off + bytes.length := by omega
  rw [storeBytes, if_pos hin, Nat.add_sub_cancel_left]

theorem storeBytes_outside {b : Nat → UInt8} {off p : Nat} {bytes : List UInt8}
    (h : p < off ∨ off + bytes.length ≤ p) : storeBytes b off bytes p = b p := if_neg (by omega)

theorem storeBytes_singleton (b : Nat → UInt8) (off : Nat) (c : UInt8) :
    storeBytes b off [c] off = c := storeBytes_inside (i := 0) Nat.zero_lt_one

theorem load_storeBytes_disjoint {b : Nat → UInt8} {off m a : Nat} {bytes : List UInt8}
    (h : a + m ≤ off ∨ off + bytes.length ≤ a) :
    load (storeBytes b off bytes) m a = load b m a := by
  apply load_congr
  intro i hi
  exact storeBytes_outside (by omega)

end LittleEndian
