import Newrex.Lib.Transition
import Newrex.RexFS.DataArea

/-!
# RexFS: freeing blocks behind the bitmap

`free_block` compares its block with the start of the data area and not with the 4096 bits of
the bitmap, an array on its stack. Block pointers have 16 bits, and once a block of pointers is
lost and used again for data, `rm`, `write` and `writehex` free whatever numbers stand there. The
store then clears a bit of the registers and variables that the callers keep on the stack.

* `Op.StaysInside`: every block that a command frees has its bit in the bitmap, or lies below the
  data area. `Op.step_outOfBounds`: this is when the model raises no flag.
* `Strayed`: what a command can do once it has left the bitmap. `rmStrayed` is what it does in the
  kernel image of the repository, for one bit of one variable.
-/

namespace Newrex

open RexFS WriteLog TransitionSystem

/-! ## The blocks that are freed -/

/-- The blocks that the freeing loops free: those of the inode, with the entries of the
indirect block as they are once the bits of the direct blocks are cleared. -/
def RexFS.freedBlocks (st : RexFS) (ino : NrInode) : List Nat :=
  ((List.finRange 10).foldl (fun st k => st.freePointer (ino.directBlocks k)) st).disk.blocksOf ino

/-- Clearing bits changes the indirect block only when it is the bitmap. -/
theorem RexFS.freedBlocks_eq (st : RexFS) {ino : NrInode} (h : ino.indirectBlock.toNat ≠ 10) :
    st.freedBlocks ino = st.disk.blocksOf ino := by
  rw [RexFS.freedBlocks, foldl_freeDirect]
  exact Disk.blocksOf_congr fun _ => freeAll_disk_of_ne st _ h

/-- Every block that the freeing loops free has a bit in the bitmap, or lies below the data
area. -/
def FreesInside (st : RexFS) (ino : NrInode) : Prop :=
  ∀ b, b ∈ st.freedBlocks ino → b < st.activeSb.dataOffset.toNat + 4096

instance (st : RexFS) (ino : NrInode) : Decidable (FreesInside st ino) :=
  inferInstanceAs
    (Decidable (∀ b, b ∈ st.freedBlocks ino → b < st.activeSb.dataOffset.toNat + 4096))

/-- The freeing loops raise the model's flag exactly for the other blocks. -/
theorem freeInodeBlocks_outOfBounds (st : RexFS) (ino : NrInode) :
    (st.freeInodeBlocks ino).outOfBounds = (st.outOfBounds || !decide (FreesInside st ino)) := by
  have hany : (!decide (FreesInside st ino)) =
      (st.freedBlocks ino).any (st.activeSb.dataOffset.toNat + 4096 ≤ ·) := by
    rw [Bool.eq_iff_iff, Bool.not_eq_true', decide_eq_false_iff_not, List.any_eq_true]
    simp [FreesInside]
  rw [hany, freeInodeBlocks_eq, freeAll_outOfBounds, freeAll_outOfBounds,
    freeAll_toMountState, Bool.or_assoc, ← List.any_append, RexFS.freedBlocks, foldl_freeDirect]
  rfl

theorem FreesInside.outOfBounds {st : RexFS} {ino : NrInode} (h : FreesInside st ino) :
    (st.freeInodeBlocks ino).outOfBounds = st.outOfBounds := by
  rw [freeInodeBlocks_outOfBounds, decide_eq_true h, Bool.not_true, Bool.or_false]

namespace Op

/-- The blocks that a command frees. A directory has none. -/
def freedBlocks (st : RexFS) (op : Op) : List Nat :=
  match op.resolved st with
  | some s => if (st.disk.inode s).type = 2 then [] else st.freedBlocks (st.disk.inode s)
  | none => []

/-- Every block that the command frees has its bit in the bitmap, or lies below the data area. -/
def StaysInside (st : RexFS) (op : Op) : Prop :=
  ∀ b, b ∈ op.freedBlocks st → b < st.activeSb.dataOffset.toNat + 4096

instance (st : RexFS) (op : Op) : Decidable (op.StaysInside st) :=
  inferInstanceAs (Decidable (∀ b, b ∈ op.freedBlocks st → b < st.activeSb.dataOffset.toNat + 4096))

variable {st : RexFS} {op : Op} {s : Slot}

theorem staysInside_of_unresolved (h : op.resolved st = none) : op.StaysInside st := by
  rw [StaysInside, freedBlocks, h]
  exact fun b hb => absurd hb List.not_mem_nil

theorem staysInside_of_dir (h : op.resolved st = some s) (htype : (st.disk.inode s).type = 2) :
    op.StaysInside st := by
  simp only [StaysInside, freedBlocks, h, if_pos htype]
  exact fun b hb => absurd hb List.not_mem_nil

theorem staysInside_iff (h : op.resolved st = some s) (htype : (st.disk.inode s).type ≠ 2) :
    op.StaysInside st ↔ FreesInside st (st.disk.inode s) := by
  simp only [StaysInside, freedBlocks, h, if_neg htype]
  exact Iff.rfl

end Op

/-! ## The flag of the model -/

/-- From `st` to `st'` the flag and the static variables stay. -/
structure Unmoved (st st' : RexFS) : Prop where
  flag : st'.outOfBounds = st.outOfBounds
  mount : st'.toMountState = st.toMountState

theorem Unmoved.trans {st st' st'' : RexFS} (h : Unmoved st st') (h' : Unmoved st' st'') :
    Unmoved st st'' :=
  ⟨h'.flag.trans h.flag, h'.mount.trans h.mount⟩

theorem Unmoved.writeSector (st : RexFS) (lba : Nat) (buffer : Sector) :
    Unmoved st (st.writeSector lba buffer) := ⟨rfl, rfl⟩

theorem Unmoved.print (st : RexFS) (text : String) (color : UInt8) :
    Unmoved st (st.printStringColor text color) := ⟨rfl, rfl⟩

theorem allocateFreeBlock_unmoved (st : RexFS) : Unmoved st st.allocateFreeBlock.1 := by
  unfold allocateFreeBlock
  dsimp only
  split
  · exact ⟨rfl, rfl⟩
  · exact ⟨rfl, rfl⟩

theorem ensureIndirect_unmoved (st : RexFS) (ino : NrInode) :
    Unmoved st (st.ensureIndirect ino).1 := by
  have halloc := allocateFreeBlock_unmoved st
  unfold ensureIndirect
  split
  · dsimp only
    split
    · exact halloc.trans (.print _ _ _)
    · exact halloc.trans (.writeSector _ _ _)
  · exact ⟨rfl, rfl⟩

theorem writeBlocks_unmoved (data : List UInt8) (n k : Nat) (st : RexFS) (ino : NrInode)
    (bytesWritten : Nat) : Unmoved st (writeBlocks data n k st ino bytesWritten).1 := by
  induction n generalizing k st ino bytesWritten with
  | zero => exact ⟨rfl, rfl⟩
  | succ n ih =>
    have halloc := allocateFreeBlock_unmoved st
    rw [writeBlocks]
    dsimp only
    split
    · exact halloc.trans (.print _ _ _)
    · have hwrite := halloc.trans (.writeSector _ st.allocateFreeBlock.2
        (chunkSector data bytesWritten (min (data.length - bytesWritten) 512)))
      split
      · exact hwrite.trans (ih _ _ _ _)
      · have hind := hwrite.trans (ensureIndirect_unmoved _ ino)
        split
        · next st2 heq =>
          rw [heq] at hind
          exact hind
        · next st2 ino2 heq =>
          rw [heq] at hind
          exact (hind.trans (.writeSector _ _ _)).trans (ih _ _ _ _)

theorem storePayload_unmoved (tooLarge written : String) (st : RexFS) (s : Slot) (ino : NrInode)
    (data : List UInt8) : Unmoved st (storePayload tooLarge written st s ino data).1 := by
  unfold storePayload
  split
  · exact ⟨rfl, rfl⟩
  · split
    · exact ⟨rfl, rfl⟩
    · dsimp only
      exact ((writeBlocks_unmoved ..).trans (.writeSector _ _ _)).trans (.print _ _ _)

theorem createInode_unmoved (type : UInt16) (usage created : String) (st : RexFS)
    (name : CString) : Unmoved st (createInode type usage created st name) := by
  unfold createInode
  split
  · exact ⟨rfl, rfl⟩
  · split
    · exact ⟨rfl, rfl⟩
    · split
      · exact ⟨rfl, rfl⟩
      · split <;> exact ⟨rfl, rfl⟩

theorem rexfsCd_outOfBounds (st : RexFS) (path : CString) :
    (st.rexfsCd path).outOfBounds = st.outOfBounds := by
  unfold rexfsCd
  split
  · rfl
  · split
    · rfl
    · split
      · rfl
      · split
        · split
          · rfl
          · split <;> rfl
        · split <;> rfl

theorem rexfsMkfs_outOfBounds (st : RexFS) (capacity : UInt32) :
    (st.rexfsMkfs capacity).outOfBounds = st.outOfBounds := by
  by_cases h0 : capacity = 0
  · rw [rexfsMkfs, if_pos h0]
    rfl
  · exact (mkfs_formatted st h0).2.2

theorem rexfsMount_outOfBounds (st : RexFS) : st.rexfsMount.outOfBounds = st.outOfBounds := by
  unfold rexfsMount
  dsimp only
  split
  · rfl
  · split
    · rfl
    · split <;> rfl

theorem rexfsUnmount_outOfBounds (st : RexFS) : st.rexfsUnmount.outOfBounds = st.outOfBounds := by
  unfold rexfsUnmount
  split <;> rfl

section Freeing

variable {st st' : RexFS} {op : Op}

/-- A command that resolves no file frees nothing. -/
theorem outOfBounds_of_staysInside (hin : op.StaysInside st)
    (h : st'.outOfBounds = st.outOfBounds) :
    st'.outOfBounds = (st.outOfBounds || !decide (op.StaysInside st)) := by
  rw [h, decide_eq_true hin, Bool.not_true, Bool.or_false]

/-- A command that frees the blocks of the file in slot `s`. -/
theorem outOfBounds_of_freed {s : Slot} (hres : op.resolved st = some s)
    (htype : (st.disk.inode s).type ≠ 2)
    (h : st'.outOfBounds = (st.freeInodeBlocks (st.disk.inode s)).outOfBounds) :
    st'.outOfBounds = (st.outOfBounds || !decide (op.StaysInside st)) := by
  rw [h, freeInodeBlocks_outOfBounds, decide_eq_decide.mpr (Op.staysInside_iff hres htype)]

end Freeing

theorem rexfsRm_outOfBounds (st : RexFS) (name : CString) : (st.rexfsRm name).outOfBounds =
    (st.outOfBounds || !decide ((Op.rm name).StaysInside st)) := by
  rcases hres : Op.resolved st (.rm name) with _ | s
  · obtain ⟨text, heq⟩ := rexfsRm_unresolved hres
    exact outOfBounds_of_staysInside (Op.staysInside_of_unresolved hres) (by rw [heq]; rfl)
  · rcases rexfsRm_resolved hres with ⟨text, heq, htype⟩ | ⟨st1, hst1, heq⟩
    · exact outOfBounds_of_staysInside (Op.staysInside_of_dir hres htype) (by rw [heq]; rfl)
    · rw [heq, printStringColor_outOfBounds, storeInode_outOfBounds, hst1]
      split
      · next htype => exact outOfBounds_of_staysInside (Op.staysInside_of_dir hres htype) rfl
      · next htype => exact outOfBounds_of_freed hres htype rfl

/-- `write` and `writehex` find files, no directories. -/
theorem Op.resolved_write_type {st : RexFS} {cmdArgs : CString} {s : Slot}
    (h : Op.resolved st (.write cmdArgs) = some s) : (st.disk.inode s).type ≠ 2 := by
  obtain ⟨_, _, _, hfind⟩ := Op.resolved_write cmdArgs h
  rw [(isEntryOf_iff.mp (Disk.findInode_some hfind).1).2.2.1]
  decide

theorem rexfsWrite_outOfBounds (st : RexFS) (cmdArgs : CString) :
    (st.rexfsWrite cmdArgs).1.outOfBounds =
      (st.outOfBounds || !decide ((Op.write cmdArgs).StaysInside st)) := by
  rcases hres : Op.resolved st (.write cmdArgs) with _ | s
  · obtain ⟨text, heq⟩ := rexfsWrite_unresolved hres
    exact outOfBounds_of_staysInside (Op.staysInside_of_unresolved hres) (by rw [heq]; rfl)
  · refine outOfBounds_of_freed hres (Op.resolved_write_type hres) ?_
    rw [rexfsWrite_resolved hres, (storePayload_unmoved ..).flag]

theorem rexfsWritehex_outOfBounds (st : RexFS) (cmdArgs : CString) (binBuf : UInt32) :
    (st.rexfsWritehex cmdArgs binBuf).1.outOfBounds =
      (st.outOfBounds || !decide ((Op.writehex cmdArgs binBuf).StaysInside st)) := by
  rcases hres : Op.resolved st (.writehex cmdArgs binBuf) with _ | s
  · obtain ⟨text, heq⟩ := rexfsWritehex_unresolved hres
    exact outOfBounds_of_staysInside (Op.staysInside_of_unresolved hres) (by rw [heq]; rfl)
  · refine outOfBounds_of_freed hres (Op.resolved_write_type hres) ?_
    rcases rexfsWritehex_resolved hres with ⟨_, heq⟩ | ⟨_, odd, heq⟩
    · rw [heq, printStringColor_outOfBounds]
    · rw [heq, (storePayload_unmoved ..).flag, (hexParsed_facts st s odd).2.2]

/-- A command raises the flag exactly when it frees a block that the bitmap does not cover. -/
theorem Op.step_outOfBounds (st : RexFS) (op : Op) :
    (op.step st).outOfBounds = (st.outOfBounds || !decide (op.StaysInside st)) := by
  cases op with
  | mkfs capacity =>
    exact outOfBounds_of_staysInside (staysInside_of_unresolved rfl)
      (rexfsMkfs_outOfBounds st capacity)
  | mount =>
    exact outOfBounds_of_staysInside (staysInside_of_unresolved rfl) (rexfsMount_outOfBounds st)
  | unmount =>
    exact outOfBounds_of_staysInside (staysInside_of_unresolved rfl) (rexfsUnmount_outOfBounds st)
  | mkdir name | touch name =>
    exact outOfBounds_of_staysInside (staysInside_of_unresolved rfl)
      (createInode_unmoved _ _ _ st name).flag
  | cd path =>
    exact outOfBounds_of_staysInside (staysInside_of_unresolved rfl) (rexfsCd_outOfBounds st path)
  | rm name => exact rexfsRm_outOfBounds st name
  | write cmdArgs => exact rexfsWrite_outOfBounds st cmdArgs
  | writehex cmdArgs binBuf => exact rexfsWritehex_outOfBounds st cmdArgs binBuf

theorem Op.step_inside {st : RexFS} (op : Op) (h : op.StaysInside st) :
    (op.step st).outOfBounds = st.outOfBounds := by
  rw [Op.step_outOfBounds, decide_eq_true h, Bool.not_true, Bool.or_false]

/-- Commands that leave the flag down have all stayed inside. -/
theorem staysInside_of_unflagged {st : RexFS} {ops : List Op}
    (h : (ops.foldl Op.step st).outOfBounds = false) : st.outOfBounds = false ∧
      ∀ pre op, pre ++ [op] <+: ops → op.StaysInside (pre.foldl Op.step st) := by
  induction ops generalizing st with
  | nil => exact ⟨h, fun pre op hpre => by simp at hpre⟩
  | cons op ops ih =>
    obtain ⟨hflag, hrest⟩ := ih h
    rw [Op.step_outOfBounds, Bool.or_eq_false_iff, Bool.not_eq_false', decide_eq_true_eq] at hflag
    refine ⟨hflag.1, fun pre op' hpre => ?_⟩
    cases pre with
    | nil =>
      obtain ⟨rfl, -⟩ := List.cons_prefix_cons.mp hpre
      exact hflag.2
    | cons o pre =>
      obtain ⟨rfl, hpre'⟩ := List.cons_prefix_cons.mp hpre
      exact hrest pre op' hpre'

/-! ## Behind the bitmap -/

/-- What a command can leave behind once it has stored outside the bitmap. The store hits the
frames of the callers, so that `write_sector` gets any addresses and any contents from then on;
the static variables of the driver stay. -/
def Strayed (st st' : RexFS) : Prop :=
  st'.toMountState = st.toMountState ∧ ∃ ws, Logged ws st st'

/-- The runs of a system of commands in the kernel: any state that `Strayed` allows can follow a
command that frees a block behind the bitmap. -/
def kernelRuns (M : TransitionSystem RexFS Op) : TransitionSystem RexFS (Op × RexFS) :=
  M.undefine (fun st op => op.StaysInside st) fun st _ st' => Strayed st st'

/-- Those of these runs in which every command stays inside the bitmap. -/
def insideRuns (M : TransitionSystem RexFS Op) : TransitionSystem RexFS (Op × RexFS) :=
  (kernelRuns M).restrict fun st e => e.1.StaysInside st

section Runs

variable {M : TransitionSystem RexFS Op} {st : RexFS}

/-- They are runs of the model. -/
theorem insideRuns_reachable (h : (insideRuns M).Reachable st) : M.Reachable st :=
  (reachable_restrict_undefine.mp h).of_restrict

theorem insideRuns_kernel (h : (insideRuns M).Reachable st) : (kernelRuns M).Reachable st :=
  h.of_restrict

theorem insideRuns_isRun (h : (insideRuns M).Reachable st) {ops : List Op}
    (hrun : (M.restrict fun st op => op.StaysInside st).IsRun st ops) :
    (insideRuns M).Reachable (ops.foldl M.step st) :=
  reachable_restrict_undefine.mpr ((reachable_restrict_undefine.mp h).isRun hrun)

/-- Each step is the command's. -/
theorem insideRuns_step {es pre : List (Op × RexFS)} {e : Op × RexFS}
    (hrun : (insideRuns M).IsRun st es) (hpre : pre ++ [e] <+: es) :
    (pre ++ [e]).foldl (insideRuns M).step st =
      M.step (pre.foldl (insideRuns M).step st) e.1 := by
  obtain ⟨⟨-, hstep, -⟩, hinside⟩ := hrun pre e hpre
  rw [List.foldl_append]
  exact hstep hinside

end Runs

theorem Confined.strayed {n : Nat} {st st' : RexFS} (h : Confined n st st')
    (hmount : st'.toMountState = st.toMountState) : Strayed st st' := by
  obtain ⟨ws, hlog, -⟩ := h.writes
  exact ⟨hmount, ws, hlog⟩

/-- `rexfs_rm` of the file in slot `s`, when the slot that it keeps on the stack has become `t`.
In `iso/boot/newrex.bin` the variable `found_idx * 64` lies at `bitmap[536]` while the blocks of an
indirect block are freed. Block 4305 has its bit there, that of 64, so that freeing it turns the
second slot of a sector into the first. -/
def RexFS.rmStrayed (st : RexFS) (s t : Slot) : RexFS :=
  let st := st.freeInodeBlocks (st.disk.inode s)
  let st := st.storeInode t { st.disk.inode t with id := 0 }
  st.printStringColor "Removed successfully.\n" colorLightGreen

theorem RexFS.rmStrayed_strayed (st : RexFS) (s t : Slot) : Strayed st (st.rmStrayed s t) := by
  have hfree := (Confined.refl (Sector.marksBelow_bits (st.disk 10))).freeInodeBlocks
    (st.disk.inode s)
  unfold RexFS.rmStrayed
  refine ((hfree.store t _).print _ _).strayed ?_
  rw [printStringColor_toMountState, storeInode_toMountState, freeInodeBlocks_toMountState]

/-- The slots of the runs that leave the bitmap. -/
def firstSlot : Slot := 0

def secondSlot : Slot := 1

def ninthSlot : Slot := 8

/-- The argument of a `write` to the file `name`: `n` letters and the bytes `tail`. -/
def letters (name : UInt8) (n : Nat) (tail : List UInt8) (h : ∀ c, c ∈ name :: tail → c ≠ 0) :
    CString where
  chars := name :: 32 :: (List.replicate n 97 ++ tail)
  nulFree := by
    intro c hc
    simp only [List.mem_cons, List.mem_append] at hc
    rcases hc with rfl | rfl | hc | hc
    · exact h _ List.mem_cons_self
    · decide
    · rw [List.eq_of_mem_replicate hc]
      decide
    · exact h _ (List.mem_cons_of_mem _ hc)

/-- Commands that make the file `a` free a block of choice. `a` gets eleven blocks and an indirect
block. A `writehex` without memory frees them all and leaves the pointers in the inode. The files
`e` and `f` take the blocks again, and the last two bytes of `f` are the first entry of what `a`
has for an indirect block. -/
def plantPointer (low high : UInt8) (h : ∀ c, c ∈ [102, low, high] → c ≠ 0) : List Op :=
  [.write (letters 97 5121 [] (by decide +kernel)), .writehex (.ofBuffer [97, 32, 48, 48]) 0,
    .touch (.ofBuffer [101]), .write (.ofBuffer [101, 32, 120]),
    .touch (.ofBuffer [102]), .write (letters 102 5120 [low, high] h)]

end Newrex
