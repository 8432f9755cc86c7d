import Newrex.RexFS.OutOfSpace

/-!
# RexFS: the capacity of the disk

`mkfs` takes whatever capacity ATA IDENTIFY reports as `total_blocks`, and
`allocate_free_block` compares block numbers with `total_blocks - 11`, an unsigned subtraction.
On a disk with fewer than 11 sectors it wraps around, and the limit of the bitmap is the only
one left.

* `OnDisk`: what a command is allowed to allocate and to write;
* `InCapacity.onDisk`: from 11 sectors on, every command keeps to it;
* `data_on_disk_iff` is the result for all runs that stay inside the bitmap.
-/

namespace Newrex

open RexFS WriteLog TransitionSystem

/-- The number of blocks that are marked as allocated. -/
def Disk.markedCount (d : Disk) : Nat :=
  ((Finset.range 4096).filter fun i => d.bit i = true).card

namespace Op

/-- The commands on files. -/
def OnFiles : Op → Prop
  | touch _ | write _ | writehex _ _ | rm _ => True
  | _ => False

/-- On a disk with that capacity, at every point of the command,
* `allocate_free_block` returns null or the LBA of a data block that the disk has;
* no more blocks are marked than there are data blocks.
All sectors that the command writes are the inode table, the bitmap or such data blocks. -/
structure OnDisk (capacity : UInt32) (st : RexFS) (op : Op) : Prop where
  allocated : ∀ k, ({ st with disk := op.cutAt st k }).allocateFreeBlock.2 = 0 ∨
    11 ≤ ({ st with disk := op.cutAt st k }).allocateFreeBlock.2 ∧
      ({ st with disk := op.cutAt st k }).allocateFreeBlock.2 < min capacity.toNat 4096
  written : ∀ w, w ∈ (Call.op op).written st →
    2 ≤ w.1 ∧ w.1 ≤ 10 ∨ 11 ≤ w.1 ∧ w.1 < min capacity.toNat 4096
  marked : ∀ k, (op.cutAt st k).markedCount ≤ min capacity.toNat 4096 - 11

end Op

/-- The runs of file commands after `mkfs` and `mount` on a disk with that capacity. -/
def fileRuns (capacity : UInt32) : TransitionSystem RexFS Op where
  init := fun st => ∃ st0 : RexFS, st = (st0.rexfsMkfs capacity).rexfsMount
  allowed := fun _ op => op.OnFiles
  step := fun st op => op.step st

/-- The invariant of these runs. -/
structure InCapacity (capacity : UInt32) (st : RexFS) : Prop where
  active : st.activeSb = mountedSuperblock capacity
  marks : (st.disk 10).MarksBelow (min capacity.toNat 4096 - 11)

theorem Op.OnFiles.not_super {op : Op} (h : op.OnFiles) : op.isSuper = false := by
  cases op with
  | touch _ | write _ | writehex _ _ | rm _ => rfl
  | _ => cases h

theorem Disk.markedCount_le {d : Disk} {n : Nat} (h : (d 10).MarksBelow n) : d.markedCount ≤ n := by
  have hsub : (Finset.range 4096).filter (fun i => d.bit i = true) ⊆ Finset.range n := by
    intro i hi
    exact Finset.mem_range.mpr (h i (Finset.mem_filter.mp hi).2)
  have hcard := Finset.card_le_card hsub
  rwa [Finset.card_range] at hcard

section Large

variable {capacity : UInt32} (hcap : 11 ≤ capacity) {st : RexFS}

include hcap

/-- The subtraction does not wrap around. -/
theorem blockLimit_eq : blockLimit (mountedSuperblock capacity) = min capacity.toNat 4096 - 11 := by
  rw [← totalSectors_eq, ← blockLimit_mounted hcap, Nat.add_sub_cancel_left]

theorem metadata_fits : 11 ≤ min capacity.toNat 4096 := by
  rw [← totalSectors_eq]
  exact le_totalSectors hcap

theorem inCapacity_init (st0 : RexFS) :
    InCapacity capacity (st0.rexfsMkfs capacity).rexfsMount := by
  have h0 := capacity_ne_zero hcap
  obtain ⟨hmount, hdisk, _⟩ := mkfs_mount h0 st0
  refine ⟨by rw [hmount], fun i hi => ?_⟩
  rw [hdisk, Function.update_of_ne (by decide),
    (mkfs_formatted st0 h0).1.zeroed 10 (by decide) (by decide)] at hi
  rw [Sector.bit_zero] at hi
  cases hi

theorem InCapacity.confined (h : InCapacity capacity st) {op : Op} (hop : op.OnFiles) :
    Confined (min capacity.toNat 4096 - 11) st (op.step st) := by
  refine Op.confined (fun _ => ?_) ?_ h.marks hop.not_super
  · rw [h.active]
    rfl
  · rw [h.active, blockLimit_eq hcap]
    exact Nat.min_le_left _ _

theorem InCapacity.step (h : InCapacity capacity st) {op : Op} (hop : op.OnFiles) :
    InCapacity capacity (op.step st) := by
  have hconf := h.confined hcap hop
  exact ⟨hconf.cached.trans h.active, hconf.marks⟩

/-- An allocation returns a data block of the disk, whatever the bitmap. -/
theorem InCapacity.allocated (h : InCapacity capacity st) (d : Disk) :
    ({ st with disk := d }).allocateFreeBlock.2 = 0 ∨
      11 ≤ ({ st with disk := d }).allocateFreeBlock.2 ∧
        ({ st with disk := d }).allocateFreeBlock.2 < min capacity.toNat 4096 := by
  have hoff : ({ st with disk := d }).activeSb.dataOffset = 11 := by
    rw [h.active]
    rfl
  rcases allocateFreeBlock_cases { st with disk := d } hoff with ⟨heq, _⟩ |
    ⟨idx, buf, _, hlim, _, _, _, heq⟩
  · rw [heq]
    exact Or.inl rfl
  · have hle := metadata_fits hcap
    rw [h.active, blockLimit_eq hcap] at hlim
    rw [heq]
    exact Or.inr ⟨Nat.le_add_right 11 idx, by dsimp only; omega⟩

theorem InCapacity.onDisk (h : InCapacity capacity st) {op : Op} (hop : op.OnFiles) :
    op.OnDisk capacity st := by
  obtain ⟨ws, hlog, harea⟩ := (h.confined hcap hop).writes
  have hlog' : Logged ws st ((Call.op op).run st) := hlog
  refine ⟨fun k => h.allocated hcap _, fun w hw => ?_, fun k => ?_⟩
  · rw [hlog'.written] at hw
    have hle := metadata_fits hcap
    have hlow := (harea w hw).low
    have hhigh := (harea w hw).high
    omega
  · rw [Op.cutAt, hlog'.written]
    exact Disk.markedCount_le
      (atEveryCut_of_writes h.marks (fun w hw h10 => (harea w hw).bitmap h10) k)

end Large

/-! ## Disks without a data area -/

/-- On a disk with fewer than 11 sectors the first block that is written lies behind its end. -/
theorem sampleWrite_leaves_disk : ∀ c : Fin 11, c ≠ 0 →
    11 ∈ ((Call.op (sampleWrite 1)).written (sampleFile (UInt32.ofNat c))).map Prod.fst := by
  decide +kernel

theorem sampleFile_reachable (capacity : UInt32) :
    (insideRuns (fileRuns capacity)).Reachable (sampleFile capacity) := by
  have hinit : (insideRuns (fileRuns capacity)).Reachable
      ((boot fun _ => Sector.zero).rexfsMkfs capacity).rexfsMount := .init ⟨_, rfl⟩
  exact @insideRuns_isRun _ _ hinit [.touch (.ofBuffer [97])]
    (isRun_cons.mpr ⟨⟨trivial, Op.staysInside_of_unresolved rfl⟩, isRun_nil⟩)

/-- The file is new and has no blocks to free. -/
theorem sampleWrite_inside : ∀ c : Fin 13,
    (sampleWrite 1).StaysInside (sampleFile (UInt32.ofNat c)) := by
  decide +kernel

theorem not_onDisk_of_small {capacity : UInt32} (h0 : capacity ≠ 0) (h : capacity < 11) :
    ¬ (sampleWrite 1).OnDisk capacity (sampleFile capacity) := by
  intro hdisk
  have hlt : capacity.toNat < 11 := UInt32.lt_iff_toNat_lt.mp h
  have hne : (⟨capacity.toNat, hlt⟩ : Fin 11) ≠ 0 := fun heq =>
    h0 (UInt32.toNat_inj.mp (show capacity.toNat = 0 from Fin.val_eq_of_eq heq))
  have hmem := sampleWrite_leaves_disk ⟨capacity.toNat, hlt⟩ hne
  rw [UInt32.ofNat_toNat] at hmem
  obtain ⟨w, hw, h11⟩ := List.mem_map.mp hmem
  have hin := hdisk.written w hw
  omega

/-- The data blocks stay on the disk. For every nonzero capacity that ATA IDENTIFY reports, every
file command in every run after `mkfs` and `mount` keeps to the data blocks of the disk if and only
if the disk has room for the metadata, 11 sectors. These are the runs and commands that free no
block behind the bitmap. -/
theorem data_on_disk_iff {capacity : UInt32} (h0 : capacity ≠ 0) :
    (∀ st, (insideRuns (fileRuns capacity)).Reachable st → ∀ op : Op, op.OnFiles →
      op.StaysInside st → op.OnDisk capacity st) ↔ 11 ≤ capacity := by
  constructor
  · intro hall
    by_contra hsmall
    have hlt : capacity.toNat < 11 := UInt32.lt_iff_toNat_lt.mp (UInt32.not_le.mp hsmall)
    have hinside := sampleWrite_inside ⟨capacity.toNat, by omega⟩
    rw [UInt32.ofNat_toNat] at hinside
    exact not_onDisk_of_small h0 (UInt32.not_le.mp hsmall)
      (hall _ (sampleFile_reachable capacity) (sampleWrite 1) trivial hinside)
  · intro hcap st hreach op hop _
    have hin : InCapacity capacity st := by
      refine (insideRuns_reachable hreach).invariant ?_ ?_
      · rintro _ ⟨st0, rfl⟩
        exact inCapacity_init hcap st0
      · intro st op _ hst hop
        exact hst.step hcap hop
    exact hin.onDisk hcap hop

theorem data_on_disk_sample : (sampleWrite 1).OnDisk 12 (sampleFile 12) :=
  (data_on_disk_iff (by decide)).mpr (by decide) _ (sampleFile_reachable 12) (sampleWrite 1) trivial
    (sampleWrite_inside 12)

/-- A disk of ten sectors: the block of the file `a` is sector 11. -/
theorem small_disk_overrun : ¬ ∀ capacity : UInt32, capacity ≠ 0 → ∀ st,
    (insideRuns (fileRuns capacity)).Reachable st → ∀ op : Op, op.OnFiles → op.StaysInside st →
      op.OnDisk capacity st := fun hall =>
  not_onDisk_of_small (by decide) (by decide)
    (hall 10 (by decide) _ (sampleFile_reachable 10) (sampleWrite 1) trivial
      (sampleWrite_inside 10))

end Newrex
