import Mathlib.Data.Set.Insert
import Mathlib.Order.Bounds.Basic
import Newrex.RexFS.Blocks

/-!
# RexFS: the block bitmap as a set

`allocate_free_block` and `free_block` of `kernel/rexfs.c`, read as operations on the set of the
marked blocks.

* `Disk.used` is the set that a bitmap stores. `Disk.eq_of_used_eq` says that it is all that the
  bitmap sector stores.
* `Remaps` is the step that gives the disk another set and changes nothing else.
* `allocateFreeBlock_spec`, `allocateFreeBlock_zero_iff`: the allocator inserts the least free
  block, and finds none exactly when there is none.
* `freeBlock_spec`: `free_block` removes one block.
* `block_bitmap_operations`: both together, that a free undoes an allocation, and that frees
  commute. These two are facts about sets, once the steps are known.
-/

namespace Newrex

open RexFS

/-! ## The set of a bitmap -/

/-- Two sectors with the same 4096 bits are the same. -/
theorem Sector.eq_of_bit_eq {s t : Sector} (h : ∀ i, i < 4096 → s.bit i = t.bit i) : s = t := by
  funext p
  have hp := p.isLt
  rw [← Sector.byte_of_lt s hp, ← Sector.byte_of_lt t hp]
  refine Bitmap.eq_of_bitOf_eq fun k hk => ?_
  have hbit := h (p.val * 8 + k) (by omega)
  have hdiv : (p.val * 8 + k) / 8 = p.val := by omega
  have hmod : (p.val * 8 + k) % 8 = k := by omega
  rwa [Sector.bit, Sector.bit, Bitmap.test, Bitmap.test, hdiv, hmod] at hbit

/-- The blocks that the bitmap of a disk marks as used, numbered from the first data block. -/
def Disk.used (d : Disk) : Set Nat := {i | d.bit i = true}

@[simp] theorem Disk.mem_used {d : Disk} {i : Nat} : i ∈ d.used ↔ d.bit i = true := Iff.rfl

instance (d : Disk) : DecidablePred (· ∈ d.used) := fun i =>
  inferInstanceAs (Decidable (d.bit i = true))

/-- The set and the other sectors determine the disk. -/
theorem Disk.eq_of_used_eq {d d' : Disk} (hused : d.used = d'.used)
    (hframe : ∀ l, l ≠ 10 → d l = d' l) : d = d' := by
  funext l
  rcases eq_or_ne l 10 with rfl | hl
  · refine Sector.eq_of_bit_eq fun i _ => ?_
    have hi : d.bit i = true ↔ d'.bit i = true := Set.ext_iff.mp hused i
    exact Bool.eq_iff_iff.mpr hi
  · exact hframe l hl

/-- The blocks below `n` that the bitmap does not mark. -/
def Disk.unused (d : Disk) (n : Nat) : Set Nat := {i | i < n ∧ i ∉ d.used}

/-! ## Steps that replace the set -/

/-- From `st` to `st'` the set of used blocks becomes `used`. No other sector changes, nothing is
printed, the variables of the driver stay, and no access is out of bounds. -/
structure Remaps (st st' : RexFS) (used : Set Nat) : Prop where
  used_eq : st'.disk.used = used
  frame : ∀ l, l ≠ 10 → st'.disk l = st.disk l
  mount : st'.toMountState = st.toMountState
  out : st'.out = st.out
  outOfBounds : st'.outOfBounds = st.outOfBounds

namespace Remaps

variable {st st' st'' : RexFS} {used used' : Set Nat}

theorem refl (st : RexFS) : Remaps st st st.disk.used := ⟨rfl, fun _ _ => rfl, rfl, rfl, rfl⟩

theorem trans (h : Remaps st st' used) (h' : Remaps st' st'' used') : Remaps st st'' used' where
  used_eq := h'.used_eq
  frame := fun l hl => (h'.frame l hl).trans (h.frame l hl)
  mount := h'.mount.trans h.mount
  out := h'.out.trans h.out
  outOfBounds := h'.outOfBounds.trans h.outOfBounds

/-- The set that a step leaves decides the disk. -/
theorem disk_eq (h : Remaps st st' used) (h' : Remaps st st'' used) : st'.disk = st''.disk :=
  Disk.eq_of_used_eq (h.used_eq.trans h'.used_eq.symm)
    fun l hl => (h.frame l hl).trans (h'.frame l hl).symm

end Remaps

namespace RexFS

variable {st : RexFS}

/-! ## The two operations -/

/-- What `write_sector(10, bitmap)` does to the set, given the bits of the buffer. -/
theorem remaps_writeSector {buf : Sector} {used : Set Nat}
    (h : ∀ i, i < 4096 → (buf.bit i = true ↔ i ∈ used)) (hused : ∀ i, i ∈ used → i < 4096) :
    Remaps st (st.writeSector 10 buf) used where
  used_eq := by
    ext i
    rw [Disk.mem_used, Disk.bit, writeSector_disk_bitmap, Function.update_self]
    constructor
    · intro hbit
      exact (h i (Sector.bit_lt hbit)).mp hbit
    · intro hi
      exact (h i (hused i hi)).mpr hi
  frame := fun l hl => Function.update_of_ne hl _ _
  mount := rfl
  out := rfl
  outOfBounds := rfl

/-- `free_block` of a block of the disk removes it from the set. -/
theorem freeBlock_spec (hoff : st.activeSb.dataOffset = 11) {lba : Nat} (hlow : 11 ≤ lba)
    (hhigh : lba < 11 + 4096) :
    Remaps st (st.freeBlock lba) (st.disk.used \ {lba - 11}) := by
  rcases freeBlock_cases st lba hoff with ⟨hlt, _⟩ | ⟨_, _, heq⟩ | ⟨hge, _⟩
  · omega
  · rw [heq]
    refine remaps_writeSector (fun j hj => ?_) fun j hj => Sector.bit_lt hj.1
    rw [Sector.bit_unmark (st.disk 10) hj]
    simp [Disk.bit]
  · omega

section Allocator

variable (hoff : st.activeSb.dataOffset = 11) (hlow : 11 ≤ st.activeSb.totalBlocks)
  (hhigh : st.activeSb.totalBlocks ≤ 4096)
include hoff hlow hhigh

/-- With a disk of at most 4096 blocks, `allocate_free_block` either finds no unused block and
leaves the state alone, or marks the least one and returns its LBA. -/
theorem allocateFreeBlock_spec :
    (st.disk.unused (st.activeSb.totalBlocks.toNat - 11) = ∅ ∧ st.allocateFreeBlock = (st, 0)) ∨
    ∃ i, IsLeast (st.disk.unused (st.activeSb.totalBlocks.toNat - 11)) i ∧
      st.allocateFreeBlock.2 = 11 + i ∧
      Remaps st st.allocateFreeBlock.1 (insert i st.disk.used) := by
  have hlimit : blockLimit st.activeSb = st.activeSb.totalBlocks.toNat - 11 :=
    UInt32.toNat_sub_of_le _ _ hlow
  have hsize : st.activeSb.totalBlocks.toNat ≤ 4096 := UInt32.le_iff_toNat_le.mp hhigh
  rcases allocateFreeBlock_cases st hoff with ⟨heq, hfull⟩ |
    ⟨i, buf, hi, hlim, hclear, hbelow, hbuf, heq⟩
  · refine Or.inl ⟨?_, heq⟩
    rw [Set.eq_empty_iff_forall_notMem]
    rintro j ⟨hj, hunused⟩
    exact hunused (hfull j (by omega) (by omega))
  · have hunused : i ∉ st.disk.used := by simp [hclear]
    refine Or.inr ⟨i, ⟨⟨by omega, hunused⟩, ?_⟩, by rw [heq], ?_⟩
    · rintro j ⟨_, hj⟩
      by_contra hlt
      exact hj (hbelow j (by omega))
    · rw [heq]
      refine remaps_writeSector (fun j hj => ?_) ?_
      · rw [hbuf j hj, Bool.or_eq_true, decide_eq_true_eq, Set.mem_insert_iff]
        exact or_comm
      · rintro j (rfl | hj)
        · exact hi
        · exact Sector.bit_lt hj

theorem allocateFreeBlock_of_isLeast {i : Nat}
    (hi : IsLeast (st.disk.unused (st.activeSb.totalBlocks.toNat - 11)) i) :
    st.allocateFreeBlock.2 = 11 + i ∧
      Remaps st st.allocateFreeBlock.1 (insert i st.disk.used) := by
  rcases allocateFreeBlock_spec hoff hlow hhigh with ⟨hempty, _⟩ | ⟨i', hleast, hspec⟩
  · exact absurd hempty (Set.Nonempty.ne_empty ⟨i, hi.1⟩)
  · rw [hi.unique hleast]
    exact hspec

theorem allocateFreeBlock_of_full
    (hfull : st.disk.unused (st.activeSb.totalBlocks.toNat - 11) = ∅) :
    st.allocateFreeBlock = (st, 0) := by
  rcases allocateFreeBlock_spec hoff hlow hhigh with ⟨_, heq⟩ | ⟨i, hleast, _⟩
  · exact heq
  · exact absurd hfull (Set.Nonempty.ne_empty ⟨i, hleast.1⟩)

/-- The allocator returns 0 exactly when no block is unused. -/
theorem allocateFreeBlock_zero_iff :
    st.allocateFreeBlock.2 = 0 ↔
      st.disk.unused (st.activeSb.totalBlocks.toNat - 11) = ∅ := by
  rcases allocateFreeBlock_spec hoff hlow hhigh with ⟨hempty, heq⟩ | ⟨i, hleast, hlba, _⟩
  · exact iff_of_true (by rw [heq]) hempty
  · exact iff_of_false (by omega) (Set.Nonempty.ne_empty ⟨i, hleast.1⟩)

/-! ## Laws of the operations -/

/-- Freeing the block that was just allocated restores the disk. -/
theorem freeBlock_allocateFreeBlock
    (hsome : (st.disk.unused (st.activeSb.totalBlocks.toNat - 11)).Nonempty) :
    (st.allocateFreeBlock.1.freeBlock st.allocateFreeBlock.2).disk = st.disk := by
  have hsize : st.activeSb.totalBlocks.toNat ≤ 4096 := UInt32.le_iff_toNat_le.mp hhigh
  rcases allocateFreeBlock_spec hoff hlow hhigh with ⟨hempty, _⟩ | ⟨i, hleast, hlba, halloc⟩
  · exact absurd hempty hsome.ne_empty
  · have hi : i < st.activeSb.totalBlocks.toNat - 11 := hleast.1.1
    have hoff' : st.allocateFreeBlock.1.activeSb.dataOffset = 11 := by rw [halloc.mount, hoff]
    have hfree := freeBlock_spec hoff' (Nat.le_add_right 11 i) (by omega)
    -- the set after both steps is the old one, because `i` was not in it
    have hset : st.allocateFreeBlock.1.disk.used \ {11 + i - 11} = st.disk.used := by
      rw [Nat.add_sub_cancel_left, halloc.used_eq]
      exact Set.insert_sdiff_self_of_notMem hleast.1.2
    rw [hset] at hfree
    rw [hlba]
    exact (halloc.trans hfree).disk_eq (Remaps.refl st)

end Allocator

/-- Two frees leave the same disk in either order. -/
theorem freeBlock_comm (hoff : st.activeSb.dataOffset = 11) {a b : Nat} (ha : 11 ≤ a)
    (ha' : a < 11 + 4096) (hb : 11 ≤ b) (hb' : b < 11 + 4096) :
    ((st.freeBlock a).freeBlock b).disk = ((st.freeBlock b).freeBlock a).disk := by
  have hfreeA := freeBlock_spec hoff ha ha'
  have hfreeB := freeBlock_spec hoff hb hb'
  have hoffA : (st.freeBlock a).activeSb.dataOffset = 11 := by rw [hfreeA.mount, hoff]
  have hoffB : (st.freeBlock b).activeSb.dataOffset = 11 := by rw [hfreeB.mount, hoff]
  have hboth := hfreeA.trans (freeBlock_spec hoffA hb hb')
  have hboth' := hfreeB.trans (freeBlock_spec hoffB ha ha')
  rw [hfreeA.used_eq, Set.sdiff_sdiff_comm] at hboth
  rw [hfreeB.used_eq] at hboth'
  exact hboth.disk_eq hboth'

/-- The block bitmap operations are the set operations they stand for. Take any bitmap, and a
superblock with `data_offset` 11 and 11 to 4096 blocks.
* With a least unused block `i`, `allocate_free_block` returns `11 + i` and marks that block only.
* It returns 0 exactly when no block is unused, and then changes nothing.
* `free_block` of a data block of the disk clears the mark of that block only.
* Freeing the block that an allocation returned restores the disk.
* Frees commute. -/
theorem block_bitmap_operations (st : RexFS) (hoff : st.activeSb.dataOffset = 11)
    (hlow : 11 ≤ st.activeSb.totalBlocks) (hhigh : st.activeSb.totalBlocks ≤ 4096) :
    let total := st.activeSb.totalBlocks.toNat
    let unused := st.disk.unused (total - 11)
    let alloc := st.allocateFreeBlock
    (∀ i, IsLeast unused i →
      alloc.2 = 11 + i ∧ Remaps st alloc.1 (insert i st.disk.used)) ∧
    (alloc.2 = 0 ↔ unused = ∅) ∧ (alloc.2 = 0 → alloc.1 = st) ∧
    (∀ b, 11 ≤ b → b < total → Remaps st (st.freeBlock b) (st.disk.used \ {b - 11})) ∧
    (alloc.2 ≠ 0 → (alloc.1.freeBlock alloc.2).disk = st.disk) ∧
    ∀ a b, 11 ≤ a → a < total → 11 ≤ b → b < total →
      ((st.freeBlock a).freeBlock b).disk = ((st.freeBlock b).freeBlock a).disk := by
  have hsize : st.activeSb.totalBlocks.toNat ≤ 4096 := UInt32.le_iff_toNat_le.mp hhigh
  have hzero := allocateFreeBlock_zero_iff hoff hlow hhigh
  have hnone := allocateFreeBlock_of_full hoff hlow hhigh
  intro total unused alloc
  refine ⟨fun i hi => allocateFreeBlock_of_isLeast hoff hlow hhigh hi, hzero, ?_, ?_, ?_, ?_⟩
  · intro h
    show st.allocateFreeBlock.1 = st
    rw [hnone (hzero.mp h)]
  · intro b hb hb'
    exact freeBlock_spec hoff hb (by omega)
  · intro h
    refine freeBlock_allocateFreeBlock hoff hlow hhigh (Set.nonempty_iff_ne_empty.mpr ?_)
    exact fun hempty => h (hzero.mpr hempty)
  · intro a b ha ha' hb hb'
    exact freeBlock_comm hoff ha (by omega) hb (by omega)

/-- A disk of 20 blocks whose bitmap starts with a byte `0xFF`: of its nine data blocks only the
last is free. -/
def oneFreeBlock : RexFS :=
  { boot (fun l => if l = 10 then Sector.zero.setByte 0 0xFF else Sector.zero) with
    activeSb := freshSuperblock 20 }

/-- The limit falls behind the first bit of the second byte. -/
theorem block_bitmap_operations_sample :
    oneFreeBlock.allocateFreeBlock.2 = 19 ∧
      (oneFreeBlock.allocateFreeBlock.1.freeBlock oneFreeBlock.allocateFreeBlock.2).disk =
        oneFreeBlock.disk := by
  have hleast : IsLeast (oneFreeBlock.disk.unused 9) 8 := by
    refine ⟨⟨by decide, by decide⟩, ?_⟩
    rintro j ⟨_, hj⟩
    have hset : ∀ k, k < 8 → oneFreeBlock.disk.bit k = true := by decide
    by_contra hlt
    exact hj (hset j (by omega))
  obtain ⟨hfirst, _, _, _, hrestore, _⟩ :=
    block_bitmap_operations oneFreeBlock rfl (by decide) (by decide)
  have hlba := (hfirst 8 hleast).1
  exact ⟨hlba, hrestore (by rw [hlba]; decide)⟩

end RexFS

end Newrex
