import Mathlib.Data.Finset.Card
import Mathlib.Data.Finset.Range
import Newrex.Lib.Search
import Newrex.RexFS.Basic

/-!
# RexFS: what the block operations do

One specification for each block operation of `kernel/rexfs.c`, in terms of the
bitmap bits and of the sectors that change.

* `findFreeBit_some`, `findFreeBit_none`: the nested byte and bit loops find the
  first clear bit below the limit.
* `allocateFreeBlock_cases`: the allocator sets that bit and nothing else, or
  the bitmap is full.
* `freeInodeBlocks_disk_of_ne`, `freeInodeBlocks_bit`: freeing a file clears
  the bits of its blocks and touches no other sector.
* `Allocates`: what a sequence of allocations, with writes into the allocated
  blocks, does to a disk.
-/

namespace Newrex

open RexFS

namespace RexFS

theorem writeSector_disk (st : RexFS) {lba : Nat} (h : lba < 2 ^ 28) (b : Sector) :
    (st.writeSector lba b).disk = Function.update st.disk lba b := by
  rw [writeSector, Nat.mod_eq_of_lt h]

@[simp] theorem writeSector_disk_bitmap (st : RexFS) (b : Sector) :
    (st.writeSector 10 b).disk = Function.update st.disk 10 b := rfl

@[simp] theorem printStringColor_toMountState (st : RexFS) (t : String) (c : UInt8) :
    (st.printStringColor t c).toMountState = st.toMountState := rfl

@[simp] theorem printStringColor_disk (st : RexFS) (t : String) (c : UInt8) :
    (st.printStringColor t c).disk = st.disk := rfl

@[simp] theorem printStringColor_outOfBounds (st : RexFS) (t : String) (c : UInt8) :
    (st.printStringColor t c).outOfBounds = st.outOfBounds := rfl

/-! ## The bitmap search -/

/-- The number of blocks the allocator may hand out: `total_blocks - 11` in
unsigned arithmetic. -/
def blockLimit (sb : NrSuperblock) : Nat := (sb.totalBlocks - 11).toNat

theorem tryBit_some {b : UInt8} {limit : UInt32} {i bit : Nat} {r : Nat × Nat} (hi : i < 512)
    (hbit : bit < 8) (h : tryBit b limit i bit = some r) :
    r = (i, bit) ∧ Bitmap.bitOf b bit = false ∧ i * 8 + bit < limit.toNat := by
  have hnum : (UInt32.ofNat (i * 8 + bit)).toNat = i * 8 + bit := by
    rw [UInt32.toNat_ofNat']
    omega
  unfold tryBit at h
  split at h
  · next hclear =>
    split at h
    · next hlt =>
      cases h
      rw [Bitmap.isClear_eq hbit] at hclear
      have hlt' := UInt32.lt_iff_toNat_lt.mp hlt
      rw [hnum] at hlt'
      exact ⟨rfl, by simpa using hclear, hlt'⟩
    · exact absurd h (by simp)
  · exact absurd h (by simp)

theorem tryBit_none {b : UInt8} {limit : UInt32} {i bit : Nat} (hi : i < 512) (hbit : bit < 8)
    (h : tryBit b limit i bit = none) (hlim : i * 8 + bit < limit.toNat) :
    Bitmap.bitOf b bit = true := by
  have hnum : (UInt32.ofNat (i * 8 + bit)).toNat = i * 8 + bit := by
    rw [UInt32.toNat_ofNat']
    omega
  have hlt : UInt32.ofNat (i * 8 + bit) < limit := by
    rw [UInt32.lt_iff_toNat_lt, hnum]
    exact hlim
  unfold tryBit at h
  rw [Bitmap.isClear_eq hbit] at h
  cases hb : Bitmap.bitOf b bit with
  | true => rfl
  | false =>
    rw [hb, Bool.not_false, if_pos rfl, if_pos hlt] at h
    exact absurd h (by simp)

/-- A byte that the search passes over has no clear bit below the limit. -/
theorem passedByte_bit {b : UInt8} {limit : UInt32} {i bit : Nat} (hi : i < 512) (hbit : bit < 8)
    (h : (if b ≠ 0xFF then (List.range 8).findSome? (tryBit b limit i) else none) = none)
    (hlim : i * 8 + bit < limit.toNat) : Bitmap.bitOf b bit = true := by
  split at h
  · have hnone := List.findSome?_eq_none_iff.mp h bit (List.mem_range.mpr hbit)
    exact tryBit_none hi hbit hnone hlim
  · next hff => exact Bitmap.eq_ff_iff.mp (not_not.mp hff) bit hbit

/-- The bit found is clear, below the limit, and the first such bit. -/
theorem findFreeBit_some {bitmap : Sector} {limit : UInt32} {i bit : Nat}
    (h : findFreeBit bitmap limit = some (i, bit)) :
    i < 512 ∧ bit < 8 ∧ bitmap.bit (i * 8 + bit) = false ∧ i * 8 + bit < limit.toNat ∧
      ∀ j, j < i * 8 + bit → bitmap.bit j = true := by
  obtain ⟨i', hi', hsome, hmin⟩ := Search.findSome_range_eq_some.mp h
  split at hsome
  · obtain ⟨bit', hbit', htry, hbelow⟩ := Search.findSome_range_eq_some.mp hsome
    obtain ⟨heq, hclear, hlim⟩ := tryBit_some hi' hbit' htry
    cases heq
    have hdiv : (i * 8 + bit) / 8 = i := by omega
    have hmod : (i * 8 + bit) % 8 = bit := by omega
    refine ⟨hi', hbit', ?_, hlim, ?_⟩
    · rw [Sector.bit, Bitmap.test, hdiv, hmod]
      exact hclear
    · intro j hj
      rw [Sector.bit, Bitmap.test]
      by_cases hsame : j / 8 = i
      · rw [hsame]
        exact tryBit_none hi' (by omega) (hbelow _ (by omega)) (by omega)
      · exact passedByte_bit (by omega) (by omega) (hmin (j / 8) (by omega)) (by omega)
  · exact absurd hsome (by simp)

/-- No bit found: every bit below the limit is set. -/
theorem findFreeBit_none {bitmap : Sector} {limit : UInt32}
    (h : findFreeBit bitmap limit = none) {j : Nat} (hj : j < 4096) (hlim : j < limit.toNat) :
    bitmap.bit j = true := by
  have hnone := List.findSome?_eq_none_iff.mp h (j / 8) (List.mem_range.mpr (by omega))
  exact passedByte_bit (by omega) (by omega) hnone (by omega)

/-! ## Allocating one block -/

/-- `allocate_free_block` on a file system with `data_offset` 11 either finds the
bitmap full and changes nothing, or sets the first clear bit `idx` below the
limit and returns the LBA `11 + idx`. -/
theorem allocateFreeBlock_cases (st : RexFS) (hoff : st.activeSb.dataOffset = 11) :
    (st.allocateFreeBlock = (st, 0) ∧
      ∀ j, j < 4096 → j < blockLimit st.activeSb → st.disk.bit j = true) ∨
    ∃ idx buf, idx < 4096 ∧ idx < blockLimit st.activeSb ∧ st.disk.bit idx = false ∧
      (∀ j, j < idx → st.disk.bit j = true) ∧
      (∀ j, j < 4096 → Sector.bit buf j = (st.disk.bit j || decide (j = idx))) ∧
      st.allocateFreeBlock = (st.writeSector 10 buf, 11 + idx) := by
  unfold allocateFreeBlock
  dsimp only
  split
  · next i bit hfind =>
    obtain ⟨hi, hbit, hclear, hlim, hbelow⟩ := findFreeBit_some hfind
    have hdiv : (i * 8 + bit) / 8 = i := by omega
    have hmod : (i * 8 + bit) % 8 = bit := by omega
    have hlba : (st.activeSb.dataOffset + UInt32.ofNat (i * 8 + bit)).toNat =
        11 + (i * 8 + bit) := by
      rw [hoff, UInt32.toNat_add, UInt32.toNat_ofNat']
      have : (11 : UInt32).toNat = 11 := rfl
      omega
    refine Or.inr ⟨i * 8 + bit, (st.disk 10).setByte i (Bitmap.mark ((st.disk 10).byte i) bit),
      by omega, hlim, hclear, hbelow, ?_, ?_⟩
    · intro j hj
      have := Sector.bit_mark (st.disk 10) (i := i * 8 + bit) hj
      rwa [hdiv, hmod] at this
    · rw [hlba]
  · next hfind =>
    refine Or.inl ⟨rfl, ?_⟩
    intro j hj hlim
    exact findFreeBit_none hfind hj hlim

/-! ## Freeing blocks -/

/-- `free_block` with `data_offset` 11: blocks below 11 are ignored, a block
inside the bitmap has its bit cleared, and a block beyond it is an access out of
bounds that leaves the bitmap as it was. -/
theorem freeBlock_cases (st : RexFS) (b : Nat) (hoff : st.activeSb.dataOffset = 11) :
    (b < 11 ∧ st.freeBlock b = st) ∨
    (11 ≤ b ∧ b < 11 + 4096 ∧ st.freeBlock b = st.writeSector 10 ((st.disk 10).setByte ((b - 11) / 8)
      (Bitmap.unmark ((st.disk 10).byte ((b - 11) / 8)) ((b - 11) % 8)))) ∨
    (11 + 4096 ≤ b ∧
      st.freeBlock b = { st.writeSector 10 (st.disk 10) with outOfBounds := true }) := by
  have h11 : st.activeSb.dataOffset.toNat = 11 := by rw [hoff]; rfl
  simp only [freeBlock, h11]
  split
  · next h => exact Or.inl ⟨h, rfl⟩
  · split
    · next h1 h2 => exact Or.inr (Or.inl ⟨by omega, by omega, rfl⟩)
    · next h1 h2 => exact Or.inr (Or.inr ⟨by omega, rfl⟩)

@[simp] theorem freeBlock_toMountState (st : RexFS) (b : Nat) :
    (st.freeBlock b).toMountState = st.toMountState := by
  simp only [freeBlock]
  split
  · rfl
  · split <;> rfl

theorem freeBlock_disk_of_ne (st : RexFS) (b : Nat) {l : Nat} (hl : l ≠ 10) :
    (st.freeBlock b).disk l = st.disk l := by
  simp only [freeBlock]
  split
  · rfl
  · split
    · exact Function.update_of_ne hl _ _
    · exact Function.update_of_ne hl _ _

theorem freeBlock_bit (st : RexFS) (b : Nat) (hoff : st.activeSb.dataOffset = 11) {i : Nat}
    (hi : i < 4096) : (st.freeBlock b).disk.bit i = (st.disk.bit i && !decide (11 + i = b)) := by
  rcases freeBlock_cases st b hoff with ⟨hlt, heq⟩ | ⟨hge, _, heq⟩ | ⟨hge, heq⟩
  · have : ¬ 11 + i = b := by omega
    simp [heq, this]
  · have hbits := Sector.bit_unmark (st.disk 10) (i := b - 11) hi
    have hidx : (i = b - 11) ↔ 11 + i = b := by omega
    simp only [hidx] at hbits
    rw [heq, Disk.bit, writeSector_disk_bitmap, Function.update_self, hbits]
    rfl
  · have : ¬ 11 + i = b := by omega
    simp [heq, Disk.bit, this]

/-- `free_block` of a block that the bitmap does not cover leaves it. -/
theorem freeBlock_outOfBounds (st : RexFS) (b : Nat) : (st.freeBlock b).outOfBounds =
    (st.outOfBounds || decide (st.activeSb.dataOffset.toNat + 4096 ≤ b)) := by
  simp only [freeBlock]
  split
  · next hlow =>
    rw [decide_eq_false (by omega), Bool.or_false]
  · split
    · next hin =>
      rw [decide_eq_false (by omega), Bool.or_false]
      rfl
    · next hout =>
      rw [decide_eq_true (by omega), Bool.or_true]

/-- `free_block` on each block of a list. -/
def freeAll (st : RexFS) (bs : List Nat) : RexFS := bs.foldl freeBlock st

@[simp] theorem freeAll_toMountState (st : RexFS) (bs : List Nat) :
    (st.freeAll bs).toMountState = st.toMountState := by
  induction bs generalizing st with
  | nil => rfl
  | cons b bs ih => exact (ih (st.freeBlock b)).trans (freeBlock_toMountState st b)

theorem freeAll_disk_of_ne (st : RexFS) (bs : List Nat) {l : Nat} (hl : l ≠ 10) :
    (st.freeAll bs).disk l = st.disk l := by
  induction bs generalizing st with
  | nil => rfl
  | cons b bs ih => exact (ih (st.freeBlock b)).trans (freeBlock_disk_of_ne st b hl)

theorem freeAll_bit (st : RexFS) (bs : List Nat) (hoff : st.activeSb.dataOffset = 11) {i : Nat}
    (hi : i < 4096) : (st.freeAll bs).disk.bit i = (st.disk.bit i && !decide (11 + i ∈ bs)) := by
  induction bs generalizing st with
  | nil => simp [freeAll]
  | cons b bs ih =>
    have hoff' : (st.freeBlock b).activeSb.dataOffset = 11 := by
      rw [freeBlock_toMountState]
      exact hoff
    have hstep := ih (st.freeBlock b) hoff'
    rw [freeBlock_bit st b hoff hi] at hstep
    show ((st.freeBlock b).freeAll bs).disk.bit i = _
    rw [hstep, Bool.and_assoc]
    congr 1
    by_cases h1 : 11 + i = b <;> by_cases h2 : 11 + i ∈ bs <;> simp [h1, h2]

theorem freeAll_outOfBounds (st : RexFS) (bs : List Nat) : (st.freeAll bs).outOfBounds =
    (st.outOfBounds || bs.any (st.activeSb.dataOffset.toNat + 4096 ≤ ·)) := by
  induction bs generalizing st with
  | nil => rw [List.any_nil, Bool.or_false]; rfl
  | cons b bs ih =>
    refine (ih (st.freeBlock b)).trans ?_
    rw [freeBlock_toMountState, freeBlock_outOfBounds, List.any_cons, Bool.or_assoc]

end RexFS

/-! ## The blocks of a file -/

/-- The LBAs named by a list of block pointers: 0 means "no block". -/
def pointerRefs (ps : List UInt16) : List Nat := (ps.map UInt16.toNat).filter (· ≠ 0)

/-- The pointers stored in an indirect block. -/
def Sector.pointers (s : Sector) : List UInt16 := (List.range 256).map s.pointer

/-- Every nonzero block pointer of an inode, in the order in which the freeing
loops visit them: the direct blocks, the entries of the indirect block, and the
indirect block itself. -/
def Disk.blocksOf (d : Disk) (ino : NrInode) : List Nat :=
  pointerRefs (List.ofFn ino.directBlocks) ++
    if ino.indirectBlock = 0 then []
    else pointerRefs (d ino.indirectBlock.toNat).pointers ++ [ino.indirectBlock.toNat]

theorem mem_pointerRefs {ps : List UInt16} {b : Nat} :
    b ∈ pointerRefs ps ↔ b ≠ 0 ∧ ∃ p, p ∈ ps ∧ p.toNat = b := by
  simp only [pointerRefs, List.mem_filter, List.mem_map, decide_not, Bool.not_eq_eq_eq_not,
    Bool.not_true, decide_eq_false_iff_not]
  exact and_comm

/-- The blocks of an inode depend on the disk only through its indirect block. -/
theorem Disk.blocksOf_congr {d d' : Disk} {ino : NrInode}
    (h : ino.indirectBlock ≠ 0 → d' ino.indirectBlock.toNat = d ino.indirectBlock.toNat) :
    d'.blocksOf ino = d.blocksOf ino := by
  unfold Disk.blocksOf
  by_cases h0 : ino.indirectBlock = 0
  · simp [h0]
  · simp [h0, h h0]

theorem Disk.indirect_mem_blocksOf {d : Disk} {ino : NrInode} (h : ino.indirectBlock ≠ 0) :
    ino.indirectBlock.toNat ∈ d.blocksOf ino := by
  unfold Disk.blocksOf
  simp [h]

theorem blocksOf_clearPointers (d : Disk) (ino : NrInode) : d.blocksOf (clearPointers ino) = [] := by
  simp [Disk.blocksOf, clearPointers, pointerRefs]

namespace RexFS

theorem foldl_freePointer (st : RexFS) (ps : List UInt16) :
    ps.foldl freePointer st = st.freeAll (pointerRefs ps) := by
  induction ps generalizing st with
  | nil => rfl
  | cons p ps ih =>
    rw [List.foldl_cons, ih]
    by_cases hp : p = 0
    · subst hp
      simp [freePointer, pointerRefs]
    · have hp' : p.toNat ≠ 0 := fun h => hp (UInt16.toNat.inj h)
      simp [freePointer, pointerRefs, hp, hp', freeAll]

theorem freeAll_append (st : RexFS) (as bs : List Nat) :
    st.freeAll (as ++ bs) = (st.freeAll as).freeAll bs := List.foldl_append

/-- The loop over the direct blocks. -/
theorem foldl_freeDirect (st : RexFS) (ino : NrInode) :
    (List.finRange 10).foldl (fun st k => st.freePointer (ino.directBlocks k)) st =
      st.freeAll (pointerRefs (List.ofFn ino.directBlocks)) := by
  rw [← foldl_freePointer, List.ofFn_eq_map, List.foldl_map]

/-- The freeing loops free the direct blocks, then what the indirect block lists
at that moment, then the indirect block. -/
theorem freeInodeBlocks_eq (st : RexFS) (ino : NrInode) :
    st.freeInodeBlocks ino =
      (st.freeAll (pointerRefs (List.ofFn ino.directBlocks))).freeAll
        (if ino.indirectBlock = 0 then []
         else pointerRefs ((st.freeAll (pointerRefs (List.ofFn ino.directBlocks))).disk
            ino.indirectBlock.toNat).pointers ++ [ino.indirectBlock.toNat]) := by
  simp only [freeInodeBlocks, foldl_freeDirect]
  by_cases h0 : ino.indirectBlock = 0
  · simp [h0, freeAll]
  · simp only [ne_eq, h0, not_false_eq_true, if_true, if_false, freeAll_append]
    generalize st.freeAll (pointerRefs (List.ofFn ino.directBlocks)) = st1
    rw [← foldl_freePointer st1, Sector.pointers, List.foldl_map]
    rfl

/-- Freeing a file whose indirect block is not the bitmap sector frees exactly
its blocks. -/
theorem freeInodeBlocks_eq_freeAll (st : RexFS) {ino : NrInode} (h : ino.indirectBlock.toNat ≠ 10) :
    st.freeInodeBlocks ino = st.freeAll (st.disk.blocksOf ino) := by
  rw [freeInodeBlocks_eq, freeAll_disk_of_ne _ _ h, ← freeAll_append]
  rfl

@[simp] theorem freeInodeBlocks_toMountState (st : RexFS) (ino : NrInode) :
    (st.freeInodeBlocks ino).toMountState = st.toMountState := by
  rw [freeInodeBlocks_eq, freeAll_toMountState, freeAll_toMountState]

theorem freeInodeBlocks_disk_of_ne (st : RexFS) (ino : NrInode) {l : Nat} (hl : l ≠ 10) :
    (st.freeInodeBlocks ino).disk l = st.disk l := by
  rw [freeInodeBlocks_eq, freeAll_disk_of_ne _ _ hl, freeAll_disk_of_ne _ _ hl]

theorem freeInodeBlocks_bit (st : RexFS) {ino : NrInode} (hoff : st.activeSb.dataOffset = 11)
    (h : ino.indirectBlock.toNat ≠ 10) {i : Nat} (hi : i < 4096) :
    (st.freeInodeBlocks ino).disk.bit i =
      (st.disk.bit i && !decide (11 + i ∈ st.disk.blocksOf ino)) := by
  rw [freeInodeBlocks_eq_freeAll st h, freeAll_bit st _ hoff hi]

end RexFS

/-! ## Sequences of allocations -/

/-- `d'` is `d` after allocating the blocks `al` below `limit` and writing
nothing else than those blocks and the bitmap. -/
structure Allocates (limit : Nat) (d d' : Disk) (al : List Nat) : Prop where
  nodup : al.Nodup
  range : ∀ b, b ∈ al → 11 ≤ b ∧ b < 11 + limit ∧ b < 11 + 4096
  clear : ∀ b, b ∈ al → d.bit (b - 11) = false
  bits : ∀ i, i < 4096 → d'.bit i = (d.bit i || decide (11 + i ∈ al))
  frame : ∀ l, l ≠ 10 → l ∉ al → d' l = d l

namespace Allocates

variable {limit : Nat} {d d' : Disk} {al : List Nat}

theorem refl (limit : Nat) (d : Disk) : Allocates limit d d [] :=
  ⟨List.nodup_nil, by simp, by simp, by simp, fun _ _ _ => rfl⟩

theorem perm {al' : List Nat} (h : Allocates limit d d' al) (hp : al.Perm al') :
    Allocates limit d d' al' where
  nodup := hp.nodup_iff.mp h.nodup
  range := fun b hb => h.range b (hp.mem_iff.mpr hb)
  clear := fun b hb => h.clear b (hp.mem_iff.mpr hb)
  bits := fun i hi => by simp only [h.bits i hi, hp.mem_iff]
  frame := fun l hl hal => h.frame l hl (fun hm => hal (hp.mem_iff.mp hm))

/-- One more block whose bit is clear. -/
theorem alloc (h : Allocates limit d d' al) {idx : Nat} {buf : Sector} (hidx : idx < 4096)
    (hlim : idx < limit) (hclear : d'.bit idx = false)
    (hbuf : ∀ j, j < 4096 → buf.bit j = (d'.bit j || decide (j = idx))) :
    Allocates limit d (Function.update d' 10 buf) ((11 + idx) :: al) := by
  have hold := h.bits idx hidx
  rw [hclear] at hold
  have hd : d.bit idx = false := by
    cases hb : d.bit idx with
    | false => rfl
    | true => simp [hb] at hold
  have hnew : 11 + idx ∉ al := fun hm => by simp [hm] at hold
  refine ⟨List.nodup_cons.mpr ⟨hnew, h.nodup⟩, ?_, ?_, ?_, ?_⟩
  · intro b hb
    rcases List.mem_cons.mp hb with rfl | hb
    · omega
    · exact h.range b hb
  · intro b hb
    rcases List.mem_cons.mp hb with rfl | hb
    · rw [Nat.add_sub_cancel_left]; exact hd
    · exact h.clear b hb
  · intro i hi
    rw [Disk.bit, Function.update_self, hbuf i hi, h.bits i hi, Bool.or_assoc]
    congr 1
    by_cases h1 : i = idx <;> by_cases h2 : 11 + i ∈ al <;> simp [h1, h2]
  · intro l hl hal
    rw [Function.update_of_ne hl]
    exact h.frame l hl fun hm => hal (List.mem_cons_of_mem _ hm)

/-- A write into an allocated block. -/
theorem write (h : Allocates limit d d' al) {b : Nat} (hb : b ∈ al) (buf : Sector) :
    Allocates limit d (Function.update d' b buf) al := by
  have hb10 : (10 : Nat) ≠ b := by
    have := (h.range b hb).1
    omega
  refine ⟨h.nodup, h.range, h.clear, ?_, ?_⟩
  · intro i hi
    rw [Disk.bit, Function.update_of_ne hb10]
    exact h.bits i hi
  · intro l hl hal
    have hlb : l ≠ b := fun heq => hal (heq ▸ hb)
    rw [Function.update_of_ne hlb]
    exact h.frame l hl hal

/-- Sectors below the bitmap are untouched. -/
theorem low (h : Allocates limit d d' al) {l : Nat} (hl : l < 10) : d' l = d l := by
  refine h.frame l (by omega) fun hm => ?_
  have := (h.range l hm).1
  omega

/-- A block that was marked before is not among the allocated ones. -/
theorem not_mem_of_bit (h : Allocates limit d d' al) {b : Nat} (hb : d.bit (b - 11) = true) :
    b ∉ al := fun hm => by
  rw [h.clear b hm] at hb
  exact absurd hb (by decide)

end Allocates

/-! ## Counting free blocks -/

/-- The number of clear bits below `n`. -/
def Disk.freeCount (d : Disk) (n : Nat) : Nat :=
  ((Finset.range n).filter fun i => d.bit i = false).card

/-- When the set bits of `d'` are those of `d` and the bits of `bs`, which are
clear in `d`, the free count drops by the length of `bs`. -/
theorem Disk.freeCount_add {d d' : Disk} {n : Nat} {bs : List Nat} (hnd : bs.Nodup)
    (hrange : ∀ b, b ∈ bs → 11 ≤ b ∧ b < 11 + n) (hclear : ∀ b, b ∈ bs → d.bit (b - 11) = false)
    (hbits : ∀ i, i < n → d'.bit i = (d.bit i || decide (11 + i ∈ bs))) :
    d.freeCount n = d'.freeCount n + bs.length := by
  have hinj : Set.InjOn (fun b => b - 11) {b | b ∈ bs} := by
    intro a ha b hb hab
    have h1 := (hrange a ha).1
    have h2 := (hrange b hb).1
    simp only at hab
    omega
  have hcard : (bs.toFinset.image fun b => b - 11).card = bs.length := by
    rw [Finset.card_image_of_injOn (by simpa using hinj), List.toFinset_card_of_nodup hnd]
  have hmem : ∀ i, i < n → (i ∈ bs.toFinset.image (fun b => b - 11) ↔ 11 + i ∈ bs) := by
    intro i _
    simp only [Finset.mem_image, List.mem_toFinset]
    constructor
    · rintro ⟨b, hb, rfl⟩
      have := (hrange b hb).1
      rwa [Nat.add_sub_cancel' this]
    · intro hm
      exact ⟨11 + i, hm, Nat.add_sub_cancel_left 11 i⟩
  have hsplit : (Finset.range n).filter (fun i => d.bit i = false) =
      (Finset.range n).filter (fun i => d'.bit i = false) ∪ bs.toFinset.image (fun b => b - 11) := by
    ext i
    simp only [Finset.mem_union, Finset.mem_filter, Finset.mem_range]
    constructor
    · rintro ⟨hi, hd⟩
      by_cases hm : 11 + i ∈ bs
      · exact Or.inr ((hmem i hi).mpr hm)
      · exact Or.inl ⟨hi, by rw [hbits i hi, hd]; simp [hm]⟩
    · rintro (⟨hi, hd'⟩ | hm)
      · rw [hbits i hi] at hd'
        exact ⟨hi, (Bool.or_eq_false_iff.mp hd').1⟩
      · obtain ⟨b, hb, rfl⟩ := Finset.mem_image.mp hm
        have hb' := List.mem_toFinset.mp hb
        have := hrange b hb'
        exact ⟨by omega, hclear b hb'⟩
  have hdisj : Disjoint ((Finset.range n).filter fun i => d'.bit i = false)
      (bs.toFinset.image fun b => b - 11) := by
    rw [Finset.disjoint_left]
    intro i hi hm
    obtain ⟨hin, hd'⟩ := Finset.mem_filter.mp hi
    have hin' := Finset.mem_range.mp hin
    rw [hbits i hin', decide_eq_true ((hmem i hin').mp hm)] at hd'
    simp at hd'
  rw [Disk.freeCount, hsplit, Finset.card_union_of_disjoint hdisj, hcard]
  rfl

theorem Disk.freeCount_eq_zero {d : Disk} {n : Nat} (h : ∀ i, i < n → d.bit i = true) :
    d.freeCount n = 0 := by
  rw [Disk.freeCount, Finset.card_eq_zero, Finset.filter_eq_empty_iff]
  intro i hi
  rw [h i (Finset.mem_range.mp hi)]
  decide

end Newrex
