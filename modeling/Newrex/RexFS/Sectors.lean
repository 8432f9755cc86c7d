import Newrex.RexFS.Accesses
import Newrex.RexFS.Frees

/-!
# RexFS: the sectors of a command

`read_sector` and `write_sector` wait without a limit for a drive that has no sector with the
number they send (`not_ataReadSector_ends`, `not_ataWriteSector_ends`). So the loops of a
command end only when it stays on the drive. `Command.sectors` lists the numbers that a command
sends, in order, for reading and for writing. Sectors 1 to 10 aside they come from three places:

* the pointers of the file that `cat` and `exec` read, `ReadsOnDrive`;
* the indirect pointer of the file whose blocks `rm`, `write` and `writehex` free;
* the blocks that `allocate_free_block` hands out, `NrSuperblock.BlocksOnDrive`.

`Command.sectors_onDrive_iff` says what the state in front of a command has to satisfy.
-/

namespace Newrex

open RexFS

/-- Every sector of the list is one of a drive with `N` sectors. -/
def OnDrive (N : Nat) (sectors : List Nat) : Prop := ∀ l, l ∈ sectors → l < N

namespace OnDrive

variable {N : Nat} {α : Type}

@[simp] theorem nil : OnDrive N [] := fun _ h => by cases h

@[simp] theorem cons_iff {l : Nat} {ls : List Nat} :
    OnDrive N (l :: ls) ↔ l < N ∧ OnDrive N ls := List.forall_mem_cons

@[simp] theorem append_iff {ls ls' : List Nat} :
    OnDrive N (ls ++ ls') ↔ OnDrive N ls ∧ OnDrive N ls' := List.forall_mem_append

theorem flatMap {ls : List α} {f : α → List Nat} (h : ∀ x, x ∈ ls → OnDrive N (f x)) :
    OnDrive N (ls.flatMap f) := by
  intro l hl
  obtain ⟨x, hx, hlx⟩ := List.mem_flatMap.mp hl
  exact h x hx l hlx

end OnDrive

/-! ## The inode table -/

/-- The sectors of a scan that ends at the first inode with `p`. -/
def Disk.scanSectors (d : Disk) (p : NrInode → Bool) : List Nat :=
  ((d.visited p).map Slot.sector).dedup

/-- The sectors of `rexfs_mkdir` and `rexfs_touch`. -/
def createSectors (st : RexFS) (name : CString) : List Nat :=
  if !st.fsMounted ∨ name.chars = [] then []
  else
    st.disk.scanSectors (·.isEntry st.currentDirId name.chars) ++
      match st.disk.findInode (·.isEntry st.currentDirId name.chars) with
      | some _ => []
      | none =>
        st.disk.scanSectors (·.id = 0) ++
          match st.disk.findInode (·.id = 0) with
          | some s => [s.sector]
          | none => []

/-- The sectors of `rexfs_cd`. -/
def cdSectors (st : RexFS) (path : CString) : List Nat :=
  if !st.fsMounted ∨ path.chars = [] ∨ path.chars = slash then []
  else if path.chars = dotDot then
    if st.currentDirId = 0 then []
    else st.disk.scanSectors (·.id.toNat = st.currentDirId.toNat)
  else st.disk.scanSectors (·.isEntryOf 2 st.currentDirId path.chars)

/-- The sectors of `rexfs_pwd`: one scan for each id on the way up, and one for each name
printed. -/
def pwdSectors (st : RexFS) : List Nat :=
  if !st.fsMounted ∨ st.currentDirId = 0 then []
  else
    let ids := pwdIds st.disk 64 st.currentDirId
    (ids ++ ids.reverse).flatMap fun id => st.disk.scanSectors (·.id.toNat = id.toNat)

/-- The sectors of `rexfs_ls`. -/
def lsSectors (st : RexFS) : List Nat :=
  if !st.fsMounted then [] else st.disk.scanSectors fun _ => false

/-! ## Blocks -/

/-- The sectors of `free_block`. -/
def freeBlockSectors (sb : NrSuperblock) (blockLba : Nat) : List Nat :=
  if blockLba < sb.dataOffset.toNat then [] else [10, 10]

/-- The sectors of `if (block != 0) free_block(block);`. -/
def freePointerSectors (sb : NrSuperblock) (block : UInt16) : List Nat :=
  if block ≠ 0 then freeBlockSectors sb block.toNat else []

/-- The sectors of the loops that free the blocks of a file. -/
def freeInodeSectors (st : RexFS) (ino : NrInode) : List Nat :=
  (List.finRange 10).flatMap (fun k => freePointerSectors st.activeSb (ino.directBlocks k)) ++
    if ino.indirectBlock ≠ 0 then
      let st' := (List.finRange 10).foldl (fun st k => st.freePointer (ino.directBlocks k)) st
      let indirectBuf := st'.disk ino.indirectBlock.toNat
      ino.indirectBlock.toNat ::
        ((List.range 256).flatMap (fun k =>
            freePointerSectors st.activeSb (indirectBuf.pointer k)) ++
          freeBlockSectors st.activeSb ino.indirectBlock.toNat)
    else []

/-- The sectors of `rexfs_rm`. -/
def rmSectors (st : RexFS) (name : CString) : List Nat :=
  if !st.fsMounted ∨ name.chars = [] then []
  else
    st.disk.scanSectors (·.isEntry st.currentDirId name.chars) ++
      match st.disk.findInode (·.isEntry st.currentDirId name.chars) with
      | none => []
      | some s =>
        let ino := st.disk.inode s
        if ino.type = 2 then
          let child := fun p : NrInode => p.id ≠ 0 ∧ p.parentId.toNat = ino.id.toNat
          st.disk.scanSectors (fun p => child p) ++
            if (st.disk.findInode fun p => child p).isSome then [] else [s.sector, s.sector]
        else freeInodeSectors st ino ++ [s.sector, s.sector]

/-- The sectors of `allocate_free_block`. -/
def allocateSectors (st : RexFS) : List Nat :=
  match findFreeBit (st.disk 10) (st.activeSb.totalBlocks - 11) with
  | some _ => [10, 10]
  | none => [10]

/-! ## Writing files -/

/-- The sectors of the allocation of the indirect block on first use. -/
def ensureIndirectSectors (st : RexFS) (ino : NrInode) : List Nat :=
  if ino.indirectBlock = 0 then
    let (_, indLba) := st.allocateFreeBlock
    allocateSectors st ++ if indLba = 0 then [] else [indLba % 2 ^ 28]
  else []

/-- The sectors of the allocation loop. -/
def writeBlocksSectors (data : List UInt8) :
    (n k : Nat) → RexFS → NrInode → (bytesWritten : Nat) → List Nat
  | 0, _, _, _, _ => []
  | n + 1, k, st, ino, bytesWritten =>
    let (st', blockLba) := st.allocateFreeBlock
    allocateSectors st ++
      if blockLba = 0 then []
      else
        let chunkSize := min (data.length - bytesWritten) 512
        let st := st'.writeSector blockLba (chunkSector data bytesWritten chunkSize)
        let bytesWritten := bytesWritten + chunkSize
        blockLba % 2 ^ 28 ::
          if k < 10 then
            writeBlocksSectors data n (k + 1) st (setDirect ino k blockLba) bytesWritten
          else
            ensureIndirectSectors st ino ++
              match st.ensureIndirect ino with
              | (_, none) => []
              | (st, some ino) =>
                let lba := ino.indirectBlock.toNat
                let st := st.writeSector lba
                  ((st.disk lba).setPointer (k - 10) (UInt16.ofNat blockLba))
                lba :: lba :: writeBlocksSectors data n (k + 1) st ino bytesWritten

/-- The sectors of `storePayload`. -/
def storeSectors (st : RexFS) (s : Slot) (ino : NrInode) (data : List UInt8) : List Nat :=
  if data.length = 0 then [s.sector, s.sector]
  else if blocksNeeded data.length > 266 then []
  else
    writeBlocksSectors data (blocksNeeded data.length) 0 st ino 0 ++ [s.sector, s.sector]

/-- The sectors of `rexfs_write` and `rexfs_writehex` up to the freed blocks of the file, then
those of `rest` for its slot and the payload. -/
def payloadSectors (st : RexFS) (cmdArgs : CString) (rest : Slot → List UInt8 → List Nat) :
    List Nat :=
  if !st.fsMounted ∨ cmdArgs.chars = [] then []
  else
    match payloadOf cmdArgs.chars with
    | none => []
    | some payload =>
      st.disk.scanSectors (·.isEntryOf 1 st.currentDirId (filenameOf cmdArgs.chars)) ++
        match st.disk.findInode (·.isEntryOf 1 st.currentDirId (filenameOf cmdArgs.chars)) with
        | none => []
        | some s => freeInodeSectors st (st.disk.inode s) ++ rest s payload

/-- The sectors of `rexfs_write`. -/
def writeSectors (st : RexFS) (cmdArgs : CString) : List Nat :=
  payloadSectors st cmdArgs fun s text =>
    let ino := st.disk.inode s
    storeSectors (st.freeInodeBlocks ino) s (clearPointers ino) text

/-- The sectors of `rexfs_writehex`. -/
def writehexSectors (st : RexFS) (cmdArgs : CString) (binBuf : UInt32) : List Nat :=
  payloadSectors st cmdArgs fun s hexStr =>
    let ino := st.disk.inode s
    if binBuf = 0 then []
    else storeSectors (st.freeInodeBlocks ino) s (clearPointers ino) (parseHexBytes hexStr).1

/-! ## Reading files -/

/-- The sectors of the reading loop: from block 10 on the indirect block is read for each
pointer. -/
def readSectors (d : Disk) (ino : NrInode) : (n k : Nat) → List Nat
  | 0, _ => []
  | n + 1, k =>
    (if k < 10 ∨ ino.indirectBlock = 0 then [] else [ino.indirectBlock.toNat]) ++
      if 266 ≤ k ∧ ino.indirectBlock ≠ 0 then []
      else
        match blockLbaOf d ino k with
        | none => []
        | some blockLba => if blockLba = 0 then [] else blockLba :: readSectors d ino n (k + 1)

/-- The sectors of the reading loop for a whole file. -/
def fileSectors (d : Disk) (ino : NrInode) : List Nat :=
  readSectors d ino ((ino.size + 511).toNat / 512) 0

/-- The sectors of `rexfs_cat` and `rexfs_exec` up to the file's inode, then those of `rest`
for it. -/
def openSectors (st : RexFS) (filename : CString) (rest : NrInode → List Nat) : List Nat :=
  if !st.fsMounted ∨ filename.chars = [] then []
  else
    st.disk.scanSectors (·.isEntryOf 1 st.currentDirId filename.chars) ++
      match st.disk.findInode (·.isEntryOf 1 st.currentDirId filename.chars) with
      | none => []
      | some s => rest (st.disk.inode s)

/-- The sectors of `rexfs_cat`. -/
def catSectors (st : RexFS) (filename : CString) : List Nat :=
  openSectors st filename fun ino => if ino.size = 0 then [] else fileSectors st.disk ino

/-- The sectors of `rexfs_exec`. -/
def execSectors (st : RexFS) (filename : CString) (codeBuffer : UInt32) : List Nat :=
  openSectors st filename fun ino =>
    if ino.size < 8 ∨ codeBuffer = 0 then [] else fileSectors st.disk ino

/-- The numbers that a command sends to the drive. -/
def Command.sectors (st : RexFS) : Command → List Nat
  | mkdir name | touch name => createSectors st name
  | cd path => cdSectors st path
  | pwd => pwdSectors st
  | ls => lsSectors st
  | rm name => rmSectors st name
  | write cmdArgs => writeSectors st cmdArgs
  | writehex cmdArgs binBuf => writehexSectors st cmdArgs binBuf
  | cat filename => catSectors st filename
  | exec filename codeBuffer _ => execSectors st filename codeBuffer

/-! ## What the state has to satisfy -/

/-- Every block that `allocate_free_block` can hand out is on a drive with `N` sectors, with the
28 bits that the controller gets and with the 16 bits of a pointer. -/
def NrSuperblock.BlocksOnDrive (N : Nat) (sb : NrSuperblock) : Prop :=
  ∀ i, i < 4096 → i < blockLimit sb →
    (sb.dataOffset + UInt32.ofNat i).toNat % 2 ^ 28 < N ∧
      (sb.dataOffset + UInt32.ofNat i).toNat % 2 ^ 16 < N

/-- Every pointer that the reading loop follows is on the drive: those of the blocks that the
size counts, up to the first zero, and from block 10 on the indirect pointer. -/
def ReadsOnDrive (N : Nat) (d : Disk) (ino : NrInode) : Prop :=
  ∀ k, k < (ino.size + 511).toNat / 512 → (∀ j, j < k → blockLbaOf d ino j ≠ some 0) →
    (10 ≤ k → ino.indirectBlock.toNat < N) ∧
      (k < 266 → ∀ lba, blockLbaOf d ino k = some lba → lba < N)

/-- What the state in front of a command has to satisfy for the pointers that it follows. -/
def Command.StaysOnDrive (N : Nat) (st : RexFS) (c : Command) : Prop :=
  st.fsMounted = true →
  match c with
  | mkdir _ | cd _ | pwd | ls | touch _ => True
  | rm name =>
    name.chars ≠ [] →
      ∀ s, st.disk.findInode (·.isEntry st.currentDirId name.chars) = some s →
        (st.disk.inode s).type ≠ 2 → (st.disk.inode s).indirectBlock.toNat < N
  | write cmdArgs | writehex cmdArgs _ =>
    cmdArgs.chars ≠ [] → payloadOf cmdArgs.chars ≠ none →
      ∀ s, st.disk.findInode (·.isEntryOf 1 st.currentDirId (filenameOf cmdArgs.chars)) = some s →
        (st.disk.inode s).indirectBlock.toNat < N
  | cat filename =>
    filename.chars ≠ [] →
      ∀ s, st.disk.findInode (·.isEntryOf 1 st.currentDirId filename.chars) = some s →
        (st.disk.inode s).size ≠ 0 → ReadsOnDrive N st.disk (st.disk.inode s)
  | exec filename codeBuffer _ =>
    filename.chars ≠ [] →
      ∀ s, st.disk.findInode (·.isEntryOf 1 st.currentDirId filename.chars) = some s →
        ¬ (st.disk.inode s).size < 8 → codeBuffer ≠ 0 → ReadsOnDrive N st.disk (st.disk.inode s)

/-- The commands that allocate blocks. -/
def Command.allocates : Command → Bool
  | write _ | writehex _ _ => true
  | mkdir _ | cd _ | pwd | ls | touch _ | rm _ | cat _ | exec _ _ _ => false

/-! ## The sectors of each command -/

section Commands

variable {N : Nat} {st : RexFS}

theorem slot_onDrive (hN : 11 ≤ N) (s : Slot) : s.sector < N :=
  Nat.lt_of_lt_of_le s.sector_lt (Nat.le_of_succ_le hN)

theorem bitmap_onDrive (hN : 11 ≤ N) : OnDrive N [10, 10] := by
  simp only [OnDrive.cons_iff]
  exact ⟨hN, hN, .nil⟩

theorem storeInode_onDrive (hN : 11 ≤ N) (s : Slot) : OnDrive N [s.sector, s.sector] := by
  simp only [OnDrive.cons_iff]
  exact ⟨slot_onDrive hN s, slot_onDrive hN s, .nil⟩

theorem scanSectors_onDrive (hN : 11 ≤ N) (d : Disk) (p : NrInode → Bool) :
    OnDrive N (d.scanSectors p) := by
  intro l hl
  obtain ⟨s, _, rfl⟩ := List.mem_map.mp (List.mem_dedup.mp hl)
  exact slot_onDrive hN s

theorem createSectors_onDrive (hN : 11 ≤ N) (name : CString) :
    OnDrive N (createSectors st name) := by
  unfold createSectors
  split
  · exact .nil
  · refine OnDrive.append_iff.mpr ⟨scanSectors_onDrive hN _ _, ?_⟩
    split
    · exact .nil
    · refine OnDrive.append_iff.mpr ⟨scanSectors_onDrive hN _ _, ?_⟩
      split
      · next s _ => exact OnDrive.cons_iff.mpr ⟨slot_onDrive hN s, .nil⟩
      · exact .nil

theorem cdSectors_onDrive (hN : 11 ≤ N) (path : CString) : OnDrive N (cdSectors st path) := by
  unfold cdSectors
  split
  · exact .nil
  · split
    · split
      · exact .nil
      · exact scanSectors_onDrive hN _ _
    · exact scanSectors_onDrive hN _ _

theorem pwdSectors_onDrive (hN : 11 ≤ N) : OnDrive N (pwdSectors st) := by
  unfold pwdSectors
  split
  · exact .nil
  · exact .flatMap fun id _ => scanSectors_onDrive hN _ _

theorem lsSectors_onDrive (hN : 11 ≤ N) : OnDrive N (lsSectors st) := by
  unfold lsSectors
  split
  · exact .nil
  · exact scanSectors_onDrive hN _ _

/-! ### Freeing -/

theorem freeBlockSectors_onDrive (hN : 11 ≤ N) (sb : NrSuperblock) (blockLba : Nat) :
    OnDrive N (freeBlockSectors sb blockLba) := by
  unfold freeBlockSectors
  split
  · exact .nil
  · exact bitmap_onDrive hN

theorem freePointerSectors_onDrive (hN : 11 ≤ N) (sb : NrSuperblock) (block : UInt16) :
    OnDrive N (freePointerSectors sb block) := by
  unfold freePointerSectors
  split
  · exact freeBlockSectors_onDrive hN sb _
  · exact .nil

/-- Freeing the blocks of a file writes the bitmap only, and reads the indirect block. -/
theorem freeInodeSectors_onDrive_iff (hN : 11 ≤ N) {ino : NrInode} :
    OnDrive N (freeInodeSectors st ino) ↔ ino.indirectBlock.toNat < N := by
  unfold freeInodeSectors
  rw [OnDrive.append_iff,
    and_iff_right (OnDrive.flatMap fun k _ => freePointerSectors_onDrive hN _ _)]
  split
  · rw [OnDrive.cons_iff, OnDrive.append_iff]
    exact and_iff_left ⟨.flatMap fun k _ => freePointerSectors_onDrive hN _ _,
      freeBlockSectors_onDrive hN _ _⟩
  · next h =>
    rw [not_not.mp h]
    exact ⟨fun _ => Nat.lt_of_lt_of_le (by decide) hN, fun _ => .nil⟩

theorem rmSectors_onDrive_iff (hN : 11 ≤ N) {name : CString} (hm : st.fsMounted = true) :
    OnDrive N (rmSectors st name) ↔
      (name.chars ≠ [] →
        ∀ s, st.disk.findInode (·.isEntry st.currentDirId name.chars) = some s →
          (st.disk.inode s).type ≠ 2 → (st.disk.inode s).indirectBlock.toNat < N) := by
  unfold rmSectors
  split
  · next h =>
    have hnil : name.chars = [] := by simpa [hm] using h
    simp [hnil]
  · next h =>
    have hne : name.chars ≠ [] := by simpa [hm] using h
    rw [imp_iff_right hne, OnDrive.append_iff, and_iff_right (scanSectors_onDrive hN _ _)]
    split
    · next hnone => simp [hnone]
    · next s hs =>
      rw [hs]
      simp only [Option.some.injEq, forall_eq']
      split
      · next hdir =>
        refine ⟨fun _ hfile => absurd hdir hfile, fun _ => ?_⟩
        refine OnDrive.append_iff.mpr ⟨scanSectors_onDrive hN _ _, ?_⟩
        split
        · exact .nil
        · exact storeInode_onDrive hN s
      · next hfile =>
        rw [imp_iff_right hfile, OnDrive.append_iff, and_iff_left (storeInode_onDrive hN s),
          freeInodeSectors_onDrive_iff hN]

/-! ### Allocating -/

theorem allocateSectors_onDrive (hN : 11 ≤ N) : OnDrive N (allocateSectors st) := by
  unfold allocateSectors
  split
  · exact bitmap_onDrive hN
  · exact OnDrive.cons_iff.mpr ⟨hN, .nil⟩

/-- `allocate_free_block` returns 0 or a block on the drive. -/
theorem allocateFreeBlock_onDrive (h0 : 0 < N) (hsb : st.activeSb.BlocksOnDrive N) :
    st.allocateFreeBlock.2 % 2 ^ 28 < N ∧ st.allocateFreeBlock.2 % 2 ^ 16 < N := by
  unfold RexFS.allocateFreeBlock
  dsimp only
  split
  · next i bit hfind =>
    obtain ⟨hi, hbit, _, hlimit, _⟩ := findFreeBit_some hfind
    exact hsb (i * 8 + bit) (by omega) hlimit
  · exact ⟨h0, h0⟩

/-- The indirect block that the allocation loop goes on with is on the drive. -/
theorem ensureIndirect_onDrive (hN : 11 ≤ N) (hsb : st.activeSb.BlocksOnDrive N) {ino : NrInode}
    (hino : ino.indirectBlock.toNat < N) :
    OnDrive N (ensureIndirectSectors st ino) ∧
      ∀ ino', (st.ensureIndirect ino).2 = some ino' → ino'.indirectBlock.toNat < N := by
  obtain ⟨h28, h16⟩ := allocateFreeBlock_onDrive (by omega) hsb
  unfold ensureIndirectSectors RexFS.ensureIndirect
  generalize st.allocateFreeBlock = r at h28 h16 ⊢
  split
  · dsimp only [-Nat.reducePow]
    rw [OnDrive.append_iff, and_iff_right (allocateSectors_onDrive hN)]
    split
    · exact ⟨.nil, fun ino' h => by cases h⟩
    · refine ⟨OnDrive.cons_iff.mpr ⟨h28, .nil⟩, ?_⟩
      rintro _ ⟨⟩
      exact h16
  · refine ⟨.nil, ?_⟩
    rintro _ ⟨⟩
    exact hino

/-- Every round of the allocation loop stays on the drive. -/
theorem writeBlocksSectors_onDrive (hN : 11 ≤ N) (data : List UInt8) (n k : Nat) {st : RexFS}
    (hsb : st.activeSb.BlocksOnDrive N) {ino : NrInode} (hino : ino.indirectBlock.toNat < N)
    (bytesWritten : Nat) : OnDrive N (writeBlocksSectors data n k st ino bytesWritten) := by
  induction n generalizing k st ino bytesWritten with
  | zero => exact .nil
  | succ n ih =>
    obtain ⟨h28, _⟩ := allocateFreeBlock_onDrive (by omega) hsb
    have hcached := congrArg MountState.activeSb (allocateFreeBlock_unmoved st).mount
    rw [writeBlocksSectors]
    generalize st.allocateFreeBlock = r at hcached h28 ⊢
    dsimp only [-Nat.reducePow]
    rw [OnDrive.append_iff, and_iff_right (allocateSectors_onDrive hN)]
    split
    · exact .nil
    · refine OnDrive.cons_iff.mpr ⟨h28, ?_⟩
      have hsb1 : (r.1.writeSector r.2 (chunkSector data bytesWritten
          (min (data.length - bytesWritten) 512))).activeSb.BlocksOnDrive N := hcached.symm ▸ hsb
      generalize r.1.writeSector r.2 (chunkSector data bytesWritten
        (min (data.length - bytesWritten) 512)) = st1 at hsb1 ⊢
      split
      · have hdirect : (setDirect ino k r.2).indirectBlock.toNat < N := hino
        exact ih (k + 1) hsb1 hdirect _
      · obtain ⟨hind, hnext⟩ := ensureIndirect_onDrive hN hsb1 hino
        have hcached1 := congrArg MountState.activeSb (ensureIndirect_unmoved st1 ino).mount
        refine OnDrive.append_iff.mpr ⟨hind, ?_⟩
        split
        · exact .nil
        · next st2 ino2 heq =>
          rw [heq] at hcached1 hnext
          have hino2 := hnext ino2 rfl
          simp only [OnDrive.cons_iff]
          exact ⟨hino2, hino2, ih (k + 1) (hcached1.symm ▸ hsb1) hino2 _⟩

theorem storeSectors_onDrive (hN : 11 ≤ N) (hsb : st.activeSb.BlocksOnDrive N) (s : Slot)
    {ino : NrInode} (hino : ino.indirectBlock.toNat < N) (data : List UInt8) :
    OnDrive N (storeSectors st s ino data) := by
  unfold storeSectors
  split
  · exact storeInode_onDrive hN s
  · split
    · exact .nil
    · exact OnDrive.append_iff.mpr
        ⟨writeBlocksSectors_onDrive hN data _ 0 hsb hino 0, storeInode_onDrive hN s⟩

/-- Behind the freeing loops `rexfs_write` and `rexfs_writehex` depend on the superblock only. -/
theorem payloadSectors_onDrive_iff (hN : 11 ≤ N) {cmdArgs : CString}
    {rest : Slot → List UInt8 → List Nat} (hm : st.fsMounted = true)
    (hrest : ∀ s payload, OnDrive N (rest s payload)) :
    OnDrive N (payloadSectors st cmdArgs rest) ↔
      (cmdArgs.chars ≠ [] → payloadOf cmdArgs.chars ≠ none →
        ∀ s, st.disk.findInode (·.isEntryOf 1 st.currentDirId (filenameOf cmdArgs.chars)) = some s →
          (st.disk.inode s).indirectBlock.toNat < N) := by
  unfold payloadSectors
  split
  · next h =>
    have hnil : cmdArgs.chars = [] := by simpa [hm] using h
    simp [hnil]
  · next h =>
    have hne : cmdArgs.chars ≠ [] := by simpa [hm] using h
    rw [imp_iff_right hne]
    split
    · next hnone => simp [hnone]
    · next payload hpayload =>
      rw [imp_iff_right (by simp [hpayload]), OnDrive.append_iff,
        and_iff_right (scanSectors_onDrive hN _ _)]
      split
      · next hnone => simp [hnone]
      · next s hs =>
        rw [OnDrive.append_iff, and_iff_left (hrest s payload), freeInodeSectors_onDrive_iff hN, hs]
        simp

/-! ### Reading -/

/-- Only a block behind the direct ones has no pointer, when there is no indirect block. -/
theorem blockLbaOf_eq_none {d : Disk} {ino : NrInode} {k : Nat} :
    blockLbaOf d ino k = none ↔ 10 ≤ k ∧ ino.indirectBlock = 0 := by
  unfold blockLbaOf
  split
  · next h => simp [Nat.not_le.mpr h]
  · next h =>
    split
    · next h0 => simp [h0, Nat.not_lt.mp h]
    · next h0 => simp [h0]

/-- What holds of every round holds of the first one and of those behind it. -/
theorem forall_rounds_succ {k n : Nat} {P : Nat → Prop} :
    (∀ j, k ≤ j → j < k + (n + 1) → P j) ↔ P k ∧ ∀ j, k + 1 ≤ j → j < k + 1 + n → P j := by
  constructor
  · intro h
    exact ⟨h k (Nat.le_refl k) (by omega), fun j h1 h2 => h j (by omega) (by omega)⟩
  · rintro ⟨hk, hj⟩ j h1 h2
    rcases Nat.eq_or_lt_of_le h1 with rfl | hlt
    · exact hk
    · exact hj j hlt (by omega)

/-- A round of the reading loop reads the indirect block, if there is one, before its own. -/
theorem indirectRead_onDrive_iff (h0 : 0 < N) {ino : NrInode} {k : Nat} :
    OnDrive N (if k < 10 ∨ ino.indirectBlock = 0 then [] else [ino.indirectBlock.toNat]) ↔
      (10 ≤ k → ino.indirectBlock.toNat < N) := by
  split
  · next h =>
    refine ⟨fun _ hk => ?_, fun _ => .nil⟩
    rw [h.resolve_left (by omega)]
    exact h0
  · next h => rw [OnDrive.cons_iff, and_iff_left .nil, imp_iff_right (by omega)]

/-- The reading loop from block `k` on. -/
theorem readSectors_onDrive_iff (h0 : 0 < N) {d : Disk} {ino : NrInode} (n k : Nat) :
    OnDrive N (readSectors d ino n k) ↔
      ∀ j, k ≤ j → j < k + n → (∀ i, k ≤ i → i < j → blockLbaOf d ino i ≠ some 0) →
        (10 ≤ j → ino.indirectBlock.toNat < N) ∧
          (j < 266 → ∀ lba, blockLbaOf d ino j = some lba → lba < N) := by
  induction n generalizing k with
  | zero => exact ⟨fun _ j h1 h2 => absurd h2 (by omega), fun _ => .nil⟩
  | succ n ih =>
    rw [readSectors, OnDrive.append_iff, indirectRead_onDrive_iff h0, forall_rounds_succ]
    split
    · next hout =>
      -- the loop leaves the indirect block, which it has read
      constructor
      · rintro ⟨hind, _⟩
        exact ⟨fun _ => ⟨hind, fun hk => absurd hk (by omega)⟩,
          fun j h1 _ _ => ⟨fun _ => hind (by omega), fun hj => absurd hj (by omega)⟩⟩
      · rintro ⟨hk, _⟩
        exact ⟨(hk fun i h1 h2 => absurd h2 (by omega)).1, .nil⟩
    · next hin =>
      split
      · next hnone =>
        -- no indirect block
        have hzero : 10 ≤ k ∧ ino.indirectBlock = 0 := blockLbaOf_eq_none.mp hnone
        have hind : ino.indirectBlock.toNat < N := by
          rw [hzero.2]
          exact h0
        refine ⟨fun _ => ?_, fun _ => ⟨fun _ => hind, .nil⟩⟩
        refine ⟨fun _ => ⟨fun _ => hind, fun _ lba hlba => ?_⟩, fun j h1 _ _ =>
          ⟨fun _ => hind, fun _ lba hlba => ?_⟩⟩
        · rw [hnone] at hlba
          cases hlba
        · rw [blockLbaOf_eq_none.mpr ⟨by omega, hzero.2⟩] at hlba
          cases hlba
      · next lba hlba =>
        split
        · next hlba0 =>
          rw [hlba0] at hlba
          constructor
          · rintro ⟨hind, _⟩
            refine ⟨fun _ => ⟨hind, fun _ l hl => ?_⟩, fun j h1 _ hall =>
              absurd hlba (hall k (Nat.le_refl k) h1)⟩
            rw [Option.some.inj (hl.symm.trans hlba)]
            exact h0
          · rintro ⟨hk, _⟩
            exact ⟨(hk fun i h1 h2 => absurd h2 (by omega)).1, .nil⟩
        · next hlba0 =>
          have hne : blockLbaOf d ino k ≠ some 0 := by
            rw [hlba]
            exact fun h => hlba0 (Option.some.inj h)
          have hlt : k < 266 := by
            by_contra hge
            have hind : ino.indirectBlock = 0 := not_not.mp fun h => hin ⟨by omega, h⟩
            rw [blockLbaOf_eq_none.mpr ⟨by omega, hind⟩] at hlba
            cases hlba
          rw [OnDrive.cons_iff, ih (k + 1)]
          constructor
          · rintro ⟨hind, hblock, hrest⟩
            refine ⟨fun _ => ⟨hind, fun _ l hl => ?_⟩, fun j h1 h2 hall =>
              hrest j h1 h2 fun i h3 h4 => hall i (by omega) h4⟩
            rw [← Option.some.inj (hlba.symm.trans hl)]
            exact hblock
          · rintro ⟨hk, hrest⟩
            obtain ⟨hind, hblock⟩ := hk fun i h1 h2 => absurd h2 (by omega)
            refine ⟨hind, hblock hlt lba hlba, fun j h1 h2 hall => hrest j h1 h2 fun i h3 h4 => ?_⟩
            rcases Nat.eq_or_lt_of_le h3 with rfl | hgt
            · exact hne
            · exact hall i hgt h4

theorem fileSectors_onDrive_iff (h0 : 0 < N) {d : Disk} {ino : NrInode} :
    OnDrive N (fileSectors d ino) ↔ ReadsOnDrive N d ino := by
  rw [fileSectors, readSectors_onDrive_iff h0]
  refine forall_congr' fun k => ?_
  rw [imp_iff_right (Nat.zero_le k), Nat.zero_add]
  refine imp_congr_right fun _ => imp_congr_left (forall_congr' fun j => ?_)
  exact imp_iff_right (Nat.zero_le j)

/-- `rexfs_cat` and `rexfs_exec`, where `P` says when the rest stays on the drive. -/
theorem openSectors_onDrive_iff (hN : 11 ≤ N) {filename : CString} {rest : NrInode → List Nat}
    {P : NrInode → Prop} (hm : st.fsMounted = true) (hrest : ∀ ino, OnDrive N (rest ino) ↔ P ino) :
    OnDrive N (openSectors st filename rest) ↔
      (filename.chars ≠ [] →
        ∀ s, st.disk.findInode (·.isEntryOf 1 st.currentDirId filename.chars) = some s →
          P (st.disk.inode s)) := by
  unfold openSectors
  split
  · next h =>
    have hnil : filename.chars = [] := by simpa [hm] using h
    simp [hnil]
  · next h =>
    have hne : filename.chars ≠ [] := by simpa [hm] using h
    rw [imp_iff_right hne, OnDrive.append_iff, and_iff_right (scanSectors_onDrive hN _ _)]
    split
    · next hnone => simp [hnone]
    · next s hs => rw [hrest, hs]; simp

theorem catSectors_onDrive_iff (hN : 11 ≤ N) {filename : CString} (hm : st.fsMounted = true) :
    OnDrive N (catSectors st filename) ↔
      (filename.chars ≠ [] →
        ∀ s, st.disk.findInode (·.isEntryOf 1 st.currentDirId filename.chars) = some s →
          (st.disk.inode s).size ≠ 0 → ReadsOnDrive N st.disk (st.disk.inode s)) := by
  refine openSectors_onDrive_iff hN (P := fun ino => ino.size ≠ 0 → ReadsOnDrive N st.disk ino) hm
    fun ino => ?_
  split
  · next hsize => simp [hsize]
  · next hsize =>
    rw [imp_iff_right hsize, fileSectors_onDrive_iff (Nat.lt_of_lt_of_le (by decide) hN)]

theorem execSectors_onDrive_iff (hN : 11 ≤ N) {filename : CString} {codeBuffer : UInt32}
    (hm : st.fsMounted = true) :
    OnDrive N (execSectors st filename codeBuffer) ↔
      (filename.chars ≠ [] →
        ∀ s, st.disk.findInode (·.isEntryOf 1 st.currentDirId filename.chars) = some s →
          ¬ (st.disk.inode s).size < 8 → codeBuffer ≠ 0 →
            ReadsOnDrive N st.disk (st.disk.inode s)) := by
  refine openSectors_onDrive_iff hN
    (P := fun ino => ¬ ino.size < 8 → codeBuffer ≠ 0 → ReadsOnDrive N st.disk ino) hm
    fun ino => ?_
  split
  · next hsize =>
    exact ⟨fun _ hlarge hbuf => absurd hsize (not_or.mpr ⟨hlarge, hbuf⟩), fun _ => .nil⟩
  · next hsize =>
    obtain ⟨hlarge, hbuf⟩ := not_or.mp hsize
    rw [imp_iff_right hlarge, imp_iff_right hbuf,
      fileSectors_onDrive_iff (Nat.lt_of_lt_of_le (by decide) hN)]

/-- A command stays on the drive exactly when the state says so of the pointers that it
follows. A command that allocates relies on the superblock as well. -/
theorem Command.sectors_onDrive_iff (hN : 11 ≤ N) (c : Command)
    (hsb : st.fsMounted = true → c.allocates = true → st.activeSb.BlocksOnDrive N) :
    OnDrive N (c.sectors st) ↔ c.StaysOnDrive N st := by
  have h0 : 0 < N := Nat.lt_of_lt_of_le (by decide) hN
  by_cases hm : st.fsMounted = true
  · have hstore : c.allocates = true → ∀ s data, OnDrive N
        (storeSectors (st.freeInodeBlocks (st.disk.inode s)) s (clearPointers (st.disk.inode s))
          data) := by
      intro hc s data
      have hind : (clearPointers (st.disk.inode s)).indirectBlock.toNat < N := h0
      have hcached : (st.freeInodeBlocks (st.disk.inode s)).activeSb = st.activeSb :=
        congrArg MountState.activeSb (freeInodeBlocks_toMountState st (st.disk.inode s))
      exact storeSectors_onDrive hN (hcached.symm ▸ hsb hm hc) s hind data
    unfold Command.StaysOnDrive
    rw [imp_iff_right hm]
    cases c with
    | mkdir name => exact iff_true_intro (createSectors_onDrive hN name)
    | cd path => exact iff_true_intro (cdSectors_onDrive hN path)
    | pwd => exact iff_true_intro (pwdSectors_onDrive hN)
    | ls => exact iff_true_intro (lsSectors_onDrive hN)
    | touch name => exact iff_true_intro (createSectors_onDrive hN name)
    | rm name => exact rmSectors_onDrive_iff hN hm
    | write cmdArgs => exact payloadSectors_onDrive_iff hN hm fun s text => hstore rfl s text
    | writehex cmdArgs binBuf =>
      refine payloadSectors_onDrive_iff hN hm fun s hex => ?_
      split
      · exact .nil
      · exact hstore rfl s _
    | cat filename => exact catSectors_onDrive_iff hN hm
    | exec filename codeBuffer old => exact execSectors_onDrive_iff hN hm
  · have hnone : c.sectors st = [] := by
      cases c <;> simp [Command.sectors, createSectors, cdSectors, pwdSectors, lsSectors,
        rmSectors, writeSectors, writehexSectors, payloadSectors, catSectors, execSectors,
        openSectors, hm]
    rw [hnone]
    exact ⟨fun _ h => absurd h hm, fun _ => .nil⟩

end Commands

end Newrex
