import Newrex.Lib.Ownership
import Newrex.Lib.Transition
import Newrex.RexFS.Frees

/-!
# RexFS: block ownership

The disk invariant of RexFS. Every live inode sits in the slot of its id, its
block pointers name data blocks that are marked in the bitmap, and no block is
named twice (`BlockOwnership`).

* `BlockOwnership.reassign`: the invariant is kept when one inode gives its
  blocks back and takes unmarked ones. All commands that touch blocks are
  instances of it.
* `effect_sound`: one command, by cases on its effect.
* `reachable_sound`: every run that starts with `mkfs` and `mount`.

A run here is one in which the disk always reports the same capacity, no payload
needs more than 266 blocks and `kmalloc` succeeds. Without the last two, a
rejected `write` breaks the invariant: it leaves a live inode with freed blocks.
-/

namespace Newrex

open RexFS

/-! ## The invariant -/

/-- The blocks named by the inode in slot `s`; a free slot names none. -/
def Disk.ownedBlocks (d : Disk) (s : Slot) : List Nat :=
  if (d.inode s).id = 0 then [] else d.blocksOf (d.inode s)

/-- `b` is a data block of a file system with `total` sectors, and its bit in the
bitmap is set. -/
def Disk.Marked (d : Disk) (total b : Nat) : Prop :=
  11 ≤ b ∧ b < total ∧ d.bit (b - 11) = true

theorem Disk.Marked.lt {d : Disk} {total b : Nat} (h : d.Marked total b) : b - 11 < 4096 :=
  Sector.bit_lt h.2.2

/-- The live inode in slot `s` has id `s + 1`. -/
def Disk.SlotIds (d : Disk) : Prop :=
  ∀ s, (d.inode s).id ≠ 0 → (d.inode s).id = UInt32.ofNat (s.val + 1)

/-- Live inodes have the id of their slot, and own marked blocks that no other
live inode owns. -/
structure BlockOwnership (total : Nat) (d : Disk) : Prop where
  ids : d.SlotIds
  blocks : Ownership d.ownedBlocks (d.Marked total)

theorem Disk.ownedBlocks_of_live {d : Disk} {s : Slot} (h : (d.inode s).id ≠ 0) :
    d.ownedBlocks s = d.blocksOf (d.inode s) := if_neg h

theorem Disk.ownedBlocks_of_free {d : Disk} {s : Slot} (h : (d.inode s).id = 0) :
    d.ownedBlocks s = [] := if_pos h

theorem Disk.setInode_inode (d : Disk) (s : Slot) (ino : NrInode) (t : Slot) :
    (d.setInode s ino).inode t = if t = s then ino else d.inode t :=
  Disk.inode_update d s ino t

theorem Disk.setInode_inode_self (d : Disk) (s : Slot) (ino : NrInode) :
    (d.setInode s ino).inode s = ino := by
  rw [Disk.setInode_inode, if_pos rfl]

theorem Disk.setInode_inode_of_ne (d : Disk) {s t : Slot} (ino : NrInode) (h : t ≠ s) :
    (d.setInode s ino).inode t = d.inode t := by
  rw [Disk.setInode_inode, if_neg h]

/-- Storing an inode changes a sector of the table only. -/
theorem Disk.setInode_of_ge (d : Disk) (s : Slot) (ino : NrInode) {l : Nat} (hl : 10 ≤ l) :
    d.setInode s ino l = d l := by
  have := s.sector_lt
  exact Function.update_of_ne (by omega) _ _

theorem Disk.setInode_one (d : Disk) (s : Slot) (ino : NrInode) : d.setInode s ino 1 = d 1 := by
  have := s.two_le_sector
  exact Function.update_of_ne (by omega) _ _

theorem Disk.setInode_bit (d : Disk) (s : Slot) (ino : NrInode) (i : Nat) :
    (d.setInode s ino).bit i = d.bit i := by
  rw [Disk.bit, Disk.setInode_of_ge d s ino (Nat.le_refl 10), Disk.bit]

namespace BlockOwnership

variable {total : Nat} {d d' : Disk}

/-- Block pointers are data blocks, so the indirect block of a live inode is one. -/
theorem indirect_marked (h : BlockOwnership total d) {s : Slot} (hlive : (d.inode s).id ≠ 0)
    (hind : (d.inode s).indirectBlock ≠ 0) : d.Marked total (d.inode s).indirectBlock.toNat := by
  refine h.blocks.marked s _ ?_
  rw [Disk.ownedBlocks_of_live hlive]
  exact Disk.indirect_mem_blocksOf hind

/-- The indirect block of a live inode is not the bitmap sector. -/
theorem indirect_ne (h : BlockOwnership total d) {s : Slot} (hlive : (d.inode s).id ≠ 0) :
    (d.inode s).indirectBlock.toNat ≠ 10 := by
  intro h10
  have hne : (d.inode s).indirectBlock ≠ 0 := by
    intro h0
    rw [h0] at h10
    exact absurd h10 (by decide)
  have := (h.indirect_marked hlive hne).1
  omega

/-- Inode `s` is rewritten: it gives its blocks back and takes `bs`, none of which
another inode can own. The other inodes and their blocks are untouched. -/
theorem reassign (h : BlockOwnership total d) {s : Slot} (bs : List Nat)
    (hother : ∀ t, t ≠ s → d'.inode t = d.inode t)
    (hid : (d'.inode s).id ≠ 0 → (d'.inode s).id = UInt32.ofNat (s.val + 1))
    (hself : d'.ownedBlocks s = bs) (hnodup : bs.Nodup)
    (hfresh : ∀ b, b ∈ bs → d.Marked total b → b ∈ d.ownedBlocks s)
    (hmark : ∀ b, b ∈ bs → d'.Marked total b)
    (hkeep : ∀ b, d.Marked total b → b ∉ d.ownedBlocks s → d'.Marked total b ∧ d' b = d b) :
    BlockOwnership total d' := by
  have howned : ∀ t, t ≠ s → d'.ownedBlocks t = d.ownedBlocks t := by
    intro t hts
    unfold Disk.ownedBlocks
    rw [hother t hts]
    by_cases hlive : (d.inode t).id = 0
    · rw [if_pos hlive, if_pos hlive]
    · rw [if_neg hlive, if_neg hlive]
      -- the indirect block of `t` is marked and not one of the blocks of `s`
      refine Disk.blocksOf_congr fun hind => ?_
      have hm : (d.inode t).indirectBlock.toNat ∈ d.ownedBlocks t := by
        rw [Disk.ownedBlocks_of_live hlive]
        exact Disk.indirect_mem_blocksOf hind
      exact (hkeep _ (h.indirect_marked hlive hind) (h.blocks.disjoint t s hts _ hm)).2
  refine ⟨?_, h.blocks.reassign hself howned hnodup hfresh hmark fun b hb hs => (hkeep b hb hs).1⟩
  intro t ht
  by_cases hts : t = s
  · subst hts
    exact hid ht
  · rw [hother t hts] at ht ⊢
    exact h.ids t ht

/-- The invariant does not depend on the superblock sector. -/
theorem congr (h : BlockOwnership total d) (hd : ∀ l, 2 ≤ l → d' l = d l) :
    BlockOwnership total d' := by
  have hinode : ∀ s, d'.inode s = d.inode s :=
    Disk.inode_congr fun l hl _ => hd l hl
  have hbit : ∀ i, d'.bit i = d.bit i := fun i => by
    rw [Disk.bit, hd 10 (by decide), Disk.bit]
  have howned : ∀ s, d'.ownedBlocks s = d.ownedBlocks s := by
    intro s
    unfold Disk.ownedBlocks
    rw [hinode s]
    by_cases hlive : (d.inode s).id = 0
    · rw [if_pos hlive, if_pos hlive]
    · rw [if_neg hlive, if_neg hlive]
      refine Disk.blocksOf_congr fun hind => hd _ ?_
      have := (h.indirect_marked hlive hind).1
      omega
  refine ⟨fun s hs => ?_, h.blocks.congr howned fun s b _ hb => ?_⟩
  · rw [hinode s] at hs ⊢
    exact h.ids s hs
  · exact ⟨hb.1, hb.2.1, (hbit _).trans hb.2.2⟩

/-- A table without live inodes. -/
theorem empty (hfree : ∀ s, (d.inode s).id = 0) : BlockOwnership total d := by
  refine ⟨fun s hs => absurd (hfree s) hs, ?_, ?_, ?_⟩
  · intro s
    rw [Disk.ownedBlocks_of_free (hfree s)]
    exact List.nodup_nil
  · intro s t _ b hb
    rw [Disk.ownedBlocks_of_free (hfree s)] at hb
    exact absurd hb (by simp)
  · intro s b hb
    rw [Disk.ownedBlocks_of_free (hfree s)] at hb
    exact absurd hb (by simp)

/-- Storing an inode that owns no block. -/
theorem setInode (h : BlockOwnership total d) {s : Slot} {ino : NrInode}
    (hid : ino.id ≠ 0 → ino.id = UInt32.ofNat (s.val + 1))
    (hnone : ino.id ≠ 0 → (d.setInode s ino).blocksOf ino = []) :
    BlockOwnership total (d.setInode s ino) := by
  refine h.reassign (s := s) [] (fun t ht => Disk.setInode_inode_of_ne d ino ht) ?_ ?_
    List.nodup_nil (by simp) (by simp) ?_
  · rw [Disk.setInode_inode_self]
    exact hid
  · unfold Disk.ownedBlocks
    rw [Disk.setInode_inode_self]
    by_cases h0 : ino.id = 0
    · exact if_pos h0
    · rw [if_neg h0]
      exact hnone h0
  · intro b hb _
    have := hb.1
    exact ⟨⟨hb.1, hb.2.1, by rw [Disk.setInode_bit]; exact hb.2.2⟩,
      Disk.setInode_of_ge d s ino (by omega)⟩

end BlockOwnership

/-! ## Freeing and refilling a file -/

section File

variable {st : RexFS} {total : Nat} {s : Slot}

/-- Freeing the blocks of a live inode unmarks those blocks and no others. -/
theorem freeInodeBlocks_marked_iff (hown : BlockOwnership total st.disk)
    (hoff : st.activeSb.dataOffset = 11)
    (hlive : (st.disk.inode s).id ≠ 0) (b : Nat) :
    (st.freeInodeBlocks (st.disk.inode s)).disk.Marked total b ↔
      st.disk.Marked total b ∧ b ∉ st.disk.ownedBlocks s := by
  rw [Disk.ownedBlocks_of_live hlive]
  unfold Disk.Marked
  constructor
  · rintro ⟨hlow, hhigh, hbit⟩
    rw [freeInodeBlocks_bit st hoff (hown.indirect_ne hlive) (Sector.bit_lt hbit),
      Nat.add_sub_cancel' hlow] at hbit
    simp only [Bool.and_eq_true, Bool.not_eq_eq_eq_not, Bool.not_true, decide_eq_false_iff_not]
      at hbit
    exact ⟨⟨hlow, hhigh, hbit.1⟩, hbit.2⟩
  · rintro ⟨⟨hlow, hhigh, hbit⟩, hnot⟩
    refine ⟨hlow, hhigh, ?_⟩
    rw [freeInodeBlocks_bit st hoff (hown.indirect_ne hlive) (Sector.bit_lt hbit),
      Nat.add_sub_cancel' hlow, hbit]
    simp [hnot]

theorem freeInodeBlocks_inode (t : Slot) (ino : NrInode) :
    (st.freeInodeBlocks ino).disk.inode t = st.disk.inode t :=
  Disk.inode_congr (fun _ _ h => freeInodeBlocks_disk_of_ne st ino (by omega)) t

/-- The blocks of a live inode lie inside the bitmap. -/
theorem freesInside_of_owned (hown : BlockOwnership total st.disk)
    (hoff : st.activeSb.dataOffset = 11) (hlive : (st.disk.inode s).id ≠ 0) :
    FreesInside st (st.disk.inode s) := by
  intro b hb
  rw [RexFS.freedBlocks_eq st (hown.indirect_ne hlive)] at hb
  have h11 : st.activeSb.dataOffset.toNat = 11 := by rw [hoff]; rfl
  have hmem : b ∈ st.disk.ownedBlocks s := by
    rw [Disk.ownedBlocks_of_live hlive]
    exact hb
  have := (hown.blocks.marked s b hmem).lt
  omega

/-- A file that owns no block has none to free. -/
theorem freeInodeBlocks_of_none (hown : BlockOwnership total st.disk)
    (hlive : (st.disk.inode s).id ≠ 0) (hnone : st.disk.blocksOf (st.disk.inode s) = []) :
    st.freeInodeBlocks (st.disk.inode s) = st := by
  rw [freeInodeBlocks_eq_freeAll st (hown.indirect_ne hlive), hnone]
  rfl

/-- `rm` of a file. -/
theorem BlockOwnership.remove (hown : BlockOwnership total st.disk)
    (hoff : st.activeSb.dataOffset = 11)
    (hlive : (st.disk.inode s).id ≠ 0) :
    BlockOwnership total ((st.freeInodeBlocks (st.disk.inode s)).disk.setInode s
      { st.disk.inode s with id := 0 }) := by
  refine hown.reassign (s := s) [] ?_ ?_ ?_ List.nodup_nil (by simp) (by simp) ?_
  · intro t ht
    rw [Disk.setInode_inode_of_ne _ _ ht, freeInodeBlocks_inode]
  · rw [Disk.setInode_inode_self]
    exact fun h => absurd rfl h
  · rw [Disk.ownedBlocks, Disk.setInode_inode_self, if_pos rfl]
  · intro b hb hnot
    have hm := (freeInodeBlocks_marked_iff hown hoff hlive b).mpr ⟨hb, hnot⟩
    have hlow := hb.1
    refine ⟨⟨hm.1, hm.2.1, by rw [Disk.setInode_bit]; exact hm.2.2⟩, ?_⟩
    rw [Disk.setInode_of_ge _ _ _ (by omega), freeInodeBlocks_disk_of_ne _ _ (by omega)]

/-- What `write` and `writehex` store: the file owns the blocks that the loop
allocated and listed. -/
theorem Wrote.ownedBlocks {limit n : Nat} {data : List UInt8} {d0 : Disk} {st0 : RexFS}
    {ino : NrInode} {r : RexFS × NrInode × Nat} {bs leak : List Nat} {ind : Nat} {size : UInt32}
    (hW : Wrote limit data n d0 st0 ino r bs ind leak) (hid : ino.id ≠ 0) :
    (r.1.disk.setInode s { r.2.1 with size := size }).ownedBlocks s = bs ++ tableOf ind := by
  have hid' : r.2.1.id = ino.id := by
    obtain ⟨_, _, hr⟩ := hW.sameMeta
    rw [hr]
  have hlive : ¬ { r.2.1 with size := size }.id = 0 := by
    show ¬ r.2.1.id = 0
    rw [hid']
    exact hid
  rw [Disk.ownedBlocks, Disk.setInode_inode_self, if_neg hlive]
  rw [← hW.filled.layout.blocksOf_eq]
  suffices hsame : (r.1.disk.setInode s { r.2.1 with size := size }).blocksOf
      { r.2.1 with size := size } = r.1.disk.blocksOf { r.2.1 with size := size } from hsame
  refine Disk.blocksOf_congr fun hind => ?_
  -- the indirect block is an allocated one, hence not a sector of the table
  have hind' : ind ≠ 0 := fun h0 => hind (by
    show r.2.1.indirectBlock = 0
    rw [hW.filled.layout.indirect, h0]
    rfl)
  have hval : r.2.1.indirectBlock.toNat = ind := by
    have := hW.filled.layout.ind_lt
    rw [hW.filled.layout.indirect, UInt16.toNat_ofNat']
    omega
  have := (hW.filled.alloc.range ind (Filled.ind_mem hind')).1
  refine Disk.setInode_of_ge _ _ _ ?_
  show 10 ≤ r.2.1.indirectBlock.toNat
  omega

/-- The freeing and the allocation of a `write` leave the inode table as it was. -/
theorem Wrote.inode {limit n : Nat} {data : List UInt8} {st0 : RexFS}
    {r : RexFS × NrInode × Nat} {bs leak : List Nat} {ind : Nat}
    (hW : Wrote limit data n (st.freeInodeBlocks (st.disk.inode s)).disk st0
      (clearPointers (st.disk.inode s)) r bs ind leak) (t : Slot) :
    r.1.disk.inode t = st.disk.inode t :=
  (Disk.inode_congr (fun _ _ hl => hW.filled.alloc.low hl) t).trans (freeInodeBlocks_inode t _)

/-- `write` or `writehex` of a payload. -/
theorem BlockOwnership.rewrite {limit n : Nat} {data : List UInt8} {st0 : RexFS}
    {r : RexFS × NrInode × Nat} {bs leak : List Nat} {ind : Nat} {size : UInt32}
    (hown : BlockOwnership total st.disk) (hoff : st.activeSb.dataOffset = 11)
    (hlimit : 11 + limit = total) (hlive : (st.disk.inode s).id ≠ 0)
    (hW : Wrote limit data n (st.freeInodeBlocks (st.disk.inode s)).disk st0
      (clearPointers (st.disk.inode s)) r bs ind leak) :
    BlockOwnership total (r.1.disk.setInode s { r.2.1 with size := size }) := by
  have halloc := hW.filled.alloc
  have hsub : ∀ b, b ∈ bs ++ tableOf ind → b ∈ bs ++ tableOf ind ++ leak :=
    fun b hb => List.mem_append_left _ hb
  have hid : r.2.1.id = (st.disk.inode s).id := by
    obtain ⟨_, _, hr⟩ := hW.sameMeta
    rw [hr]
    rfl
  refine hown.reassign (s := s) (bs ++ tableOf ind) ?_ ?_ (hW.ownedBlocks hlive) ?_ ?_ ?_ ?_
  · intro t ht
    rw [Disk.setInode_inode_of_ne _ _ ht]
    exact hW.inode t
  · rw [Disk.setInode_inode_self]
    intro _
    exact hid.trans (hown.ids s hlive)
  · exact (List.nodup_append.mp halloc.nodup).1
  · -- a block that was marked and is free after the freeing loops was a block of `s`
    intro b hb hm
    by_contra hnot
    have hkept := (freeInodeBlocks_marked_iff hown hoff hlive b).mpr ⟨hm, hnot⟩
    exact halloc.not_mem_of_bit hkept.2.2 (hsub b hb)
  · intro b hb
    have hrange := halloc.range b (hsub b hb)
    refine ⟨hrange.1, by omega, ?_⟩
    rw [Disk.setInode_bit, halloc.bits _ (by omega), Nat.add_sub_cancel' hrange.1]
    simp only [Bool.or_eq_true, decide_eq_true_eq]
    exact Or.inr (hsub b hb)
  · intro b hb hnot
    have hkept := (freeInodeBlocks_marked_iff hown hoff hlive b).mpr ⟨hb, hnot⟩
    have hlow := hb.1
    refine ⟨⟨hb.1, hb.2.1, ?_⟩, ?_⟩
    · rw [Disk.setInode_bit, halloc.bits _ hb.lt, hkept.2.2]
      rfl
    · rw [Disk.setInode_of_ge _ _ _ (by omega),
        halloc.frame b (by omega) (halloc.not_mem_of_bit hkept.2.2),
        freeInodeBlocks_disk_of_ne _ _ (by omega)]

end File

/-! ## Runs -/

/-- The number of sectors that `mkfs` uses on a disk of that capacity. -/
def totalSectors (capacity : UInt32) : Nat := (freshSuperblock capacity).totalBlocks.toNat

theorem totalSectors_eq (capacity : UInt32) : totalSectors capacity = min capacity.toNat 4096 := by
  simp only [totalSectors, freshSuperblock]
  split
  · next h =>
    rw [gt_iff_lt, UInt32.lt_iff_toNat_lt] at h
    exact (Nat.min_eq_right (Nat.le_of_lt h)).symm
  · next h =>
    rw [gt_iff_lt, UInt32.lt_iff_toNat_lt] at h
    exact (Nat.min_eq_left (Nat.le_of_not_lt h)).symm

theorem totalSectors_le (capacity : UInt32) : totalSectors capacity ≤ 4096 :=
  totalSectors_eq capacity ▸ Nat.min_le_right _ _

theorem le_totalSectors {capacity : UInt32} (h : 11 ≤ capacity) : 11 ≤ totalSectors capacity := by
  rw [totalSectors_eq]
  exact Nat.le_min.mpr ⟨UInt32.le_iff_toNat_le.mp h, by decide⟩

/-- The superblock of a mounted file system that `mkfs` made. -/
def mountedSuperblock (capacity : UInt32) : NrSuperblock :=
  { freshSuperblock capacity with cleanShutdown := 0 }

theorem blockLimit_mounted {capacity : UInt32} (h : 11 ≤ capacity) :
    11 + blockLimit (mountedSuperblock capacity) = totalSectors capacity := by
  have hle := le_totalSectors h
  have : (11 : UInt32) ≤ (freshSuperblock capacity).totalBlocks := UInt32.le_iff_toNat_le.mpr hle
  show 11 + ((freshSuperblock capacity).totalBlocks - 11).toNat = totalSectors capacity
  rw [UInt32.toNat_sub_of_le _ _ this]
  exact Nat.add_sub_cancel' hle

/-- The invariant of the runs: the superblocks in memory and on disk are those of
`mkfs`, blocks are owned, and no array access was out of bounds. -/
structure Sound (capacity : UInt32) (st : RexFS) : Prop where
  active : st.activeSb = mountedSuperblock capacity
  onDisk : { NrSuperblock.ofSector (st.disk 1) with cleanShutdown := 0 } = mountedSuperblock capacity
  owned : BlockOwnership (totalSectors capacity) st.disk
  inBounds : st.outOfBounds = false

/-- The commands of a run on a disk of that capacity: `mkfs` sees that capacity,
payloads fit, and `kmalloc` succeeds. -/
def Op.Admissible (capacity : UInt32) (op : Op) : Prop :=
  (∀ c, op = .mkfs c → c = capacity) ∧ blocksNeeded op.payload.length ≤ 266 ∧
    op.outOfMemory = false

/-- The runs that start with `mkfs` and `mount`, from any state of the driver that
was reached without an access out of bounds. -/
def formattedRuns (capacity : UInt32) : TransitionSystem RexFS Op where
  init := fun st => ∃ st0 : RexFS, st0.outOfBounds = false ∧
    st = (st0.rexfsMkfs capacity).rexfsMount
  allowed := fun _ op => op.Admissible capacity
  step := fun st op => op.step st

/-- A freshly formatted disk. -/
theorem format_table_free {d : Disk} (hzero : ∀ l, 2 ≤ l → l ≤ 10 → d l = Sector.zero) (s : Slot) :
    (d.inode s).id = 0 := by
  have := s.sector_lt
  rw [Disk.inode, hzero _ s.two_le_sector (by omega)]
  exact u32At_of_bytes fun i _ => by rw [Sector.byte_zero]; simp [LittleEndian.byteOf]

/-- What `mkfs` and `mount` leave, whatever was there before. -/
theorem mkfs_mount {capacity : UInt32} (h0 : capacity ≠ 0) (st : RexFS) :
    (st.rexfsMkfs capacity).rexfsMount.toMountState = ⟨true, mountedSuperblock capacity, 0⟩ ∧
      (st.rexfsMkfs capacity).rexfsMount.disk =
        Function.update (st.rexfsMkfs capacity).disk 1 (mountedSuperblock capacity).toSector ∧
      (st.rexfsMkfs capacity).rexfsMount.outOfBounds = st.outOfBounds := by
  obtain ⟨hformat, _, hb1⟩ := mkfs_formatted st h0
  have hsb : freshSuperblock capacity =
      NrSuperblock.ofSector ((st.rexfsMkfs capacity).disk 1) := by
    rw [hformat.superblock, NrSuperblock.ofSector_toSector]
  obtain ⟨hdisk, hmount, hb2⟩ := mount_valid (st.rexfsMkfs capacity) hsb rfl rfl
  exact ⟨hmount, hdisk, hb2.trans hb1⟩

theorem capacity_ne_zero {capacity : UInt32} (hcap : 11 ≤ capacity) : capacity ≠ 0 := by
  intro h
  rw [h] at hcap
  exact absurd hcap (by decide)

/-- `mkfs` and `mount` establish the invariant. -/
theorem sound_init {capacity : UInt32} (hcap : 11 ≤ capacity) (st : RexFS)
    (hbounds : st.outOfBounds = false) : Sound capacity (st.rexfsMkfs capacity).rexfsMount := by
  obtain ⟨hmount, hdisk, hb⟩ := mkfs_mount (capacity_ne_zero hcap) st
  have hformat := (mkfs_formatted st (capacity_ne_zero hcap)).1
  refine ⟨?_, ?_, ?_, ?_⟩
  · rw [hmount]
  · rw [hdisk, Function.update_self, NrSuperblock.ofSector_toSector]
    rfl
  · rw [hdisk]
    refine (BlockOwnership.empty (format_table_free hformat.zeroed)).congr fun l hl => ?_
    exact Function.update_of_ne (by omega) _ _
  · rw [hb]
    exact hbounds

/-- `mount` and `unmount` set the flag of the superblock on disk. -/
theorem Sound.flag {capacity : UInt32} {st : RexFS} (h : Sound capacity st) {sb : NrSuperblock}
    (hsb : sb = NrSuperblock.ofSector (st.disk 1)) (flag : UInt32) {d : Disk}
    (hd : d = Function.update st.disk 1 { sb with cleanShutdown := flag }.toSector) :
    { NrSuperblock.ofSector (d 1) with cleanShutdown := 0 } = mountedSuperblock capacity ∧
      BlockOwnership (totalSectors capacity) d := by
  have hdisk1 := h.onDisk
  rw [← hsb] at hdisk1
  rw [hd]
  refine ⟨?_, h.owned.congr fun l hl => Function.update_of_ne (by omega) _ _⟩
  rw [Function.update_self, NrSuperblock.ofSector_toSector]
  exact hdisk1

/-- The invariant is kept by an admissible command, whatever its effect. -/
theorem effect_sound {capacity : UInt32} (hcap : 11 ≤ capacity) {st st' : RexFS} {op : Op}
    (hadm : op.Admissible capacity) (h : Sound capacity st) (he : Effect st op st') :
    Sound capacity st' := by
  have ⟨hactive, hdisk1, hown, hbounds⟩ := h
  have hoff : st.activeSb.dataOffset = 11 := by rw [hactive]; rfl
  have hlimit : 11 + blockLimit st.activeSb = totalSectors capacity := by
    rw [hactive]
    exact blockLimit_mounted hcap
  cases he with
  | same hd hm ho => exact ⟨by rw [hm]; exact hactive, by rw [hd]; exact hdisk1,
      by rw [hd]; exact hown, by rw [ho]; exact hbounds⟩
  | format c hop _ hformat hm ho =>
    have hc := hadm.1 c hop
    subst hc
    refine ⟨by rw [hm]; exact hactive, ?_, BlockOwnership.empty (format_table_free hformat.zeroed),
      by rw [ho]; exact hbounds⟩
    rw [hformat.superblock, NrSuperblock.ofSector_toSector]
    rfl
  | mounted sb _ hsb _ _ hd hm ho =>
    obtain ⟨hdisk1', hown'⟩ := h.flag hsb 0 hd
    rw [← hsb] at hdisk1
    exact ⟨by rw [hm]; exact hdisk1, hdisk1', hown', by rw [ho]; exact hbounds⟩
  | unmounted sb _ _ hsb hd hm ho =>
    obtain ⟨hdisk1', hown'⟩ := h.flag hsb 1 hd
    exact ⟨by rw [hm]; exact hactive, hdisk1', hown', by rw [ho]; exact hbounds⟩
  | chdir id _ _ hd hm ho => exact ⟨by rw [hm]; exact hactive, by rw [hd]; exact hdisk1,
      by rw [hd]; exact hown, by rw [ho]; exact hbounds⟩
  | create s type name _ _ _ _ _ _ _ hd hm ho =>
    refine ⟨by rw [hm]; exact hactive, ?_, ?_, by rw [ho]; exact hbounds⟩
    · rw [hd, Disk.setInode_one]
      exact hdisk1
    · rw [hd]
      exact hown.setInode (fun _ => rfl) fun _ => blocksOf_clearPointers _ (newInode s type _ name)
  | rmdir s name _ _ _ _ _ hd hm ho =>
    refine ⟨by rw [hm]; exact hactive, ?_, ?_, by rw [ho]; exact hbounds⟩
    · rw [hd, Disk.setInode_one]
      exact hdisk1
    · rw [hd]
      exact hown.setInode (fun h => absurd rfl h) fun h => absurd rfl h
  | remove s name _ _ hfind _ hd hm ho =>
    have hlive := (isEntry_iff.mp (Disk.findInode_some hfind).1).1
    refine ⟨by rw [hm]; exact hactive, ?_, ?_, ?_⟩
    · rw [hd, Disk.setInode_one, freeInodeBlocks_disk_of_ne _ _ (by decide)]
      exact hdisk1
    · rw [hd]
      exact hown.remove hoff hlive
    · rw [ho, (freesInside_of_owned hown hoff hlive).outOfBounds]
      exact hbounds
  | freed s name _ _ _ hreject _ _ _ =>
    rcases hreject with hmem | hlarge
    · rw [hadm.2.2] at hmem
      exact absurd hmem (by decide)
    · exact absurd hadm.2.1 (by omega)
  | rewrite s name r bs ind leak _ _ hfind _ hW hd hm ho =>
    have hlive := (isEntryOf_iff.mp (Disk.findInode_some hfind).1).1
    refine ⟨by rw [hm]; exact hactive, ?_, ?_, ?_⟩
    · rw [hd, Disk.setInode_one, hW.filled.alloc.low (by decide),
        freeInodeBlocks_disk_of_ne _ _ (by decide)]
      exact hdisk1
    · rw [hd]
      exact hown.rewrite hoff hlimit hlive hW
    · rw [ho, hW.bounds, (freesInside_of_owned hown hoff hlive).outOfBounds]
      exact hbounds

/-- The invariant holds in every state of a run. -/
theorem reachable_sound {capacity : UInt32} (hcap : 11 ≤ capacity) {st : RexFS}
    (h : (formattedRuns capacity).Reachable st) : Sound capacity st := by
  refine h.invariant ?_ ?_
  · rintro st ⟨st0, hbounds, rfl⟩
    exact sound_init hcap st0 hbounds
  · intro st op _ hsound hadm
    refine effect_sound hcap hadm hsound (step_effect st (fun _ => ?_) op)
    rw [hsound.active]
    rfl

/-- Block ownership. In every state of a run, with `total_blocks` as in the mounted
superblock and on disk, the live inode in slot `s` has id `s + 1`, its nonzero
block pointers are marked data blocks, and no block is named twice. -/
theorem run_blockOwnership {capacity : UInt32} (hcap : 11 ≤ capacity) {st : RexFS}
    (h : (formattedRuns capacity).Reachable st) :
    BlockOwnership st.activeSb.totalBlocks.toNat st.disk ∧
      (NrSuperblock.ofSector (st.disk 1)).totalBlocks = st.activeSb.totalBlocks := by
  have hsound := reachable_sound hcap h
  rw [hsound.active]
  refine ⟨hsound.owned, ?_⟩
  have htotal := congrArg NrSuperblock.totalBlocks hsound.onDisk
  exact htotal

/-- A small run: a disk of 16 sectors is formatted and mounted, the files `a` and
`b` are created, and `hi` is written to `a`. -/
def sampleRun : RexFS :=
  [Op.touch (.ofBuffer [97]), .touch (.ofBuffer [98]), .write (.ofBuffer [97, 32, 104, 105])].foldl
    Op.step ((boot fun _ => Sector.zero).rexfsMkfs 16).rexfsMount

theorem sampleRun_reachable : (formattedRuns 16).Reachable sampleRun := by
  have hinit : (formattedRuns 16).Reachable ((boot fun _ => Sector.zero).rexfsMkfs 16).rexfsMount :=
    .init ⟨_, rfl, rfl⟩
  refine hinit.run ?_
  simp only [List.mem_cons, List.not_mem_nil, or_false]
  rintro op (rfl | rfl | rfl) _
  · exact ⟨by simp, by decide, rfl⟩
  · exact ⟨by simp, by decide, rfl⟩
  · exact ⟨by simp, by decide, rfl⟩

theorem run_blockOwnership_sample :
    (sampleRun.disk.inode 0).directBlocks 0 = 11 ∧
      BlockOwnership sampleRun.activeSb.totalBlocks.toNat sampleRun.disk :=
  ⟨by decide +kernel, (run_blockOwnership (by decide) sampleRun_reachable).1⟩

end Newrex
