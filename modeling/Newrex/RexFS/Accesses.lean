import Newrex.Lib.AccessLog
import Newrex.RexFS.Files

/-!
# RexFS: the array accesses of a command

`Command` are the commands of the shell that work on a mounted file system and on a loaded
program. `Command.step` runs one, and `Command.accesses` lists the array accesses that it
makes on the way, loop by loop; the accesses of one loop body are grouped by array.
Everything that the disk holds is arbitrary here: pointers, sizes and names are whatever the
inode table says.

* An array access that the disk cannot influence is in the log all the same.
* A string that ends nowhere in its 28-byte field is followed to the first byte behind it,
  and the reading loop of `rexfs_cat` to the first entry behind the indirect block. What the C
  code does behind these accesses is undefined.
* `Command.accesses_length_le`: every loop of `rexfs.c` ends. A command makes at most 600000
  accesses and two for each character of its argument, whatever the disk holds. The loops of
  `read_sector` and `write_sector` wait for the drive, see `Command.sectors`.
-/

namespace Newrex

open RexFS AccessLog

/-- The arrays of `rexfs.c`. -/
inductive Buffer
  /-- `sector_buf`, a sector. -/
  | sectorBuf
  /-- `bitmap`, the sector of the block bitmap. -/
  | bitmap
  /-- `indirect_buf`, a sector of block pointers. -/
  | indirectBuf
  /-- `path_ids` of `rexfs_pwd`. -/
  | pathIds
  /-- `name` of an inode. -/
  | name
  /-- `direct_blocks` of an inode. -/
  | directBlocks
  /-- `filename` of `rexfs_write` and `rexfs_writehex`. -/
  | filename
  /-- The payload in the argument of `rexfs_write` or `rexfs_writehex`, of that length, with its
  NUL. -/
  | text (length : Nat)
  /-- `bin_buf` of `rexfs_writehex`, for a payload of that many characters. -/
  | binBuf (hexLen : Nat)
  /-- `code_buffer` of `rexfs_exec`, for a file of that size. -/
  | codeBuffer (size : UInt32)
deriving DecidableEq, Repr

/-- The number of elements of an array. -/
def Buffer.size : Buffer → Nat
  | sectorBuf => 512
  | bitmap => 512
  | indirectBuf => 256
  | pathIds => 64
  | name => 28
  | directBlocks => 10
  | filename => 32
  | text length => length + 1
  | binBuf hexLen => hexLen / 2 + 1
  | codeBuffer size => size.toNat

/-- The commands that follow a mount. `writehex` and `exec` come with the address that
`kmalloc` returns, `exec` also with what the buffer held before. -/
inductive Command
  | mkdir (name : CString)
  | cd (path : CString)
  | pwd
  | ls
  | touch (name : CString)
  | rm (name : CString)
  | write (cmdArgs : CString)
  | writehex (cmdArgs : CString) (binBuf : UInt32)
  | cat (filename : CString)
  | exec (filename : CString) (codeBuffer : UInt32) (old : Nat → UInt8)

/-- Runs one command. -/
def Command.step (st : RexFS) : Command → RexFS
  | mkdir name => st.rexfsMkdir name
  | cd path => st.rexfsCd path
  | pwd => st.rexfsPwd
  | ls => st.rexfsLs
  | touch name => st.rexfsTouch name
  | rm name => st.rexfsRm name
  | write cmdArgs => (st.rexfsWrite cmdArgs).1
  | writehex cmdArgs binBuf => (st.rexfsWritehex cmdArgs binBuf).1
  | cat filename => st.rexfsCat filename
  | exec filename codeBuffer old => (st.rexfsExec filename codeBuffer old).1

/-- The number of characters in the argument of a command. -/
def Command.argumentLength : Command → Nat
  | mkdir arg | cd arg | touch arg | rm arg | write arg | writehex arg _ | cat arg
  | exec arg _ _ => arg.chars.length
  | pwd | ls => 0

/-! ## Names and the inode table -/

/-- The number of bytes of the field `name` that `strcmp(s, name)` reads: up to the first
that differs from `s`, the NUL of `s` included. -/
def strcmpReads : (s name : List UInt8) → Nat
  | _, [] => 1
  | [], _ :: _ => 1
  | c :: s, b :: name => if c = b then strcmpReads s name + 1 else 1

/-- The bytes of the 28-byte field. -/
def NrInode.nameField (ino : NrInode) : List UInt8 := List.ofFn ino.name

/-- The accesses of `strcmp(s, ptr->name)`. -/
def strcmpAccesses (s : List UInt8) (ino : NrInode) : List (Access Buffer) :=
  span .name 0 (strcmpReads s ino.nameField)

/-- The accesses of `print_string(ptr->name)`: up to the first NUL. -/
def printAccesses (ino : NrInode) : List (Access Buffer) := span .name 0 (ino.cName.length + 1)

/-- The inode `(nr_inode_t*)(sector_buf + i * 64)`, up to its last byte. -/
def inodeAccess (s : Slot) : Access Buffer := ⟨.sectorBuf, 64 * s.index + 63⟩

/-- The slots that a scan of the inode table visits: up to the first whose inode satisfies
`p`. -/
def Disk.visited (d : Disk) (p : NrInode → Bool) : List Slot :=
  (List.finRange 64).filter fun s => ∀ t, t < s → p (d.inode t) = false

/-- The accesses of a scan for an inode with `p`, where `atInode` are those that the test of
one inode makes. -/
def Disk.scanAccesses (d : Disk) (p : NrInode → Bool) (atInode : NrInode → List (Access Buffer)) :
    List (Access Buffer) :=
  (d.visited p).flatMap fun s => inodeAccess s :: atInode (d.inode s)

/-- The accesses of a scan that compares no names. -/
def Disk.plainScanAccesses (d : Disk) (p : NrInode → Bool) : List (Access Buffer) :=
  d.scanAccesses p fun _ => []

/-- `ptr->id != 0 && ptr->parent_id == current_dir_id`, and with a type
`ptr->type == type`: the tests in front of `strcmp`. -/
def NrInode.isCandidate (type : Option UInt16) (dir : UInt16) (ino : NrInode) : Bool :=
  ino.id ≠ 0 && ino.parentId = dir && type.all (ino.type = ·)

/-- The test with which a scan ends: `isEntry`, or with a type `isEntryOf`. -/
def NrInode.isNamed (type : Option UInt16) (dir : UInt16) (name : List UInt8) (ino : NrInode) :
    Bool :=
  match type with
  | none => ino.isEntry dir name
  | some type => ino.isEntryOf type dir name

/-- The accesses of the scan for `name` in the current directory. -/
def nameScanAccesses (st : RexFS) (type : Option UInt16) (name : List UInt8) :
    List (Access Buffer) :=
  st.disk.scanAccesses (·.isNamed type st.currentDirId name) fun ino =>
    if ino.isCandidate type st.currentDirId then strcmpAccesses name ino else []

/-- The accesses of `rexfs_mkdir` and `rexfs_touch`. -/
def createAccesses (st : RexFS) (name : CString) : List (Access Buffer) :=
  if !st.fsMounted ∨ name.chars = [] then []
  else
    nameScanAccesses st none name.chars ++
      match st.disk.findInode (·.isEntry st.currentDirId name.chars) with
      | some _ => []
      | none =>
        st.disk.plainScanAccesses (·.id = 0) ++
          match st.disk.findInode (·.id = 0) with
          | some _ => span .name 0 ((name.chars.take 27).length + 1)
          | none => []

/-! ## Directories -/

/-- The accesses of `rexfs_cd`. -/
def cdAccesses (st : RexFS) (path : CString) : List (Access Buffer) :=
  if !st.fsMounted ∨ path.chars = [] ∨ path.chars = slash then []
  else if path.chars = dotDot then
    if st.currentDirId = 0 then []
    else st.disk.plainScanAccesses (·.id.toNat = st.currentDirId.toNat)
  else nameScanAccesses st (some 2) path.chars

/-- The accesses for one element of `path_ids`, with its index: the walk up stores it and
looks for its inode. -/
def walkAccesses (d : Disk) (e : UInt16 × Nat) : List (Access Buffer) :=
  ⟨.pathIds, e.2⟩ :: d.plainScanAccesses (·.id.toNat = e.1.toNat)

/-- The accesses for one element of `path_ids`, with its index: the loop that prints the path
loads it, looks for its inode and prints the name. -/
def componentAccesses (d : Disk) (e : UInt16 × Nat) : List (Access Buffer) :=
  ⟨.pathIds, e.2⟩ :: d.plainScanAccesses (·.id.toNat = e.1.toNat) ++
    match d.findInode (·.id.toNat = e.1.toNat) with
    | some s => printAccesses (d.inode s)
    | none => []

/-- The accesses of `rexfs_pwd`. -/
def pwdAccesses (st : RexFS) : List (Access Buffer) :=
  if !st.fsMounted ∨ st.currentDirId = 0 then []
  else
    let ids := (pwdIds st.disk 64 st.currentDirId).zipIdx
    ids.flatMap (walkAccesses st.disk) ++ ids.reverse.flatMap (componentAccesses st.disk)

/-- The accesses of `rexfs_ls`. -/
def lsAccesses (st : RexFS) : List (Access Buffer) :=
  if !st.fsMounted then []
  else
    st.disk.scanAccesses (fun _ => false) fun ino =>
      if ino.isCandidate none st.currentDirId then printAccesses ino else []

/-! ## Blocks -/

/-- The accesses of `free_block`. -/
def freeBlockAccesses (sb : NrSuperblock) (blockLba : Nat) : List (Access Buffer) :=
  if blockLba < sb.dataOffset.toNat then []
  else [⟨.bitmap, (blockLba - sb.dataOffset.toNat) / 8⟩]

/-- The accesses of `if (block != 0) free_block(block);` for the pointer in `entry`. -/
def freePointerAccesses (sb : NrSuperblock) (entry : Access Buffer) (block : UInt16) :
    List (Access Buffer) :=
  entry :: if block ≠ 0 then freeBlockAccesses sb block.toNat else []

/-- The accesses of the loops that free the blocks of a file. The indirect block is read once
the direct blocks are free. -/
def freeInodeAccesses (st : RexFS) (ino : NrInode) : List (Access Buffer) :=
  (List.finRange 10).flatMap (fun k : Fin 10 =>
      freePointerAccesses st.activeSb ⟨.directBlocks, k.val⟩ (ino.directBlocks k)) ++
    if ino.indirectBlock ≠ 0 then
      let st' := (List.finRange 10).foldl (fun st k => st.freePointer (ino.directBlocks k)) st
      let indirectBuf := st'.disk ino.indirectBlock.toNat
      (List.range 256).flatMap (fun k =>
          freePointerAccesses st.activeSb ⟨.indirectBuf, k⟩ (indirectBuf.pointer k)) ++
        freeBlockAccesses st.activeSb ino.indirectBlock.toNat
    else []

/-- The accesses of `rexfs_rm`. -/
def rmAccesses (st : RexFS) (name : CString) : List (Access Buffer) :=
  if !st.fsMounted ∨ name.chars = [] then []
  else
    nameScanAccesses st none name.chars ++
      match st.disk.findInode (·.isEntry st.currentDirId name.chars) with
      | none => []
      | some s =>
        let ino := st.disk.inode s
        if ino.type = 2 then
          let child := fun p : NrInode => p.id ≠ 0 ∧ p.parentId.toNat = ino.id.toNat
          st.disk.plainScanAccesses (fun p => child p) ++
            if (st.disk.findInode fun p => child p).isSome then [] else [inodeAccess s]
        else freeInodeAccesses st ino ++ [inodeAccess s]

/-- The accesses of `allocate_free_block`: the bytes of the bitmap up to the one it changes,
or all of them. -/
def allocateAccesses (st : RexFS) : List (Access Buffer) :=
  match findFreeBit (st.disk 10) (st.activeSb.totalBlocks - 11) with
  | some (i, _) => span .bitmap 0 (i + 1)
  | none => span .bitmap 0 512

/-! ## Writing files -/

/-- The accesses of the allocation loop, which copies from `src`. -/
def writeBlocksAccesses (src : Buffer) (data : List UInt8) :
    (n k : Nat) → RexFS → NrInode → (bytesWritten : Nat) → List (Access Buffer)
  | 0, _, _, _, _ => []
  | n + 1, k, st, ino, bytesWritten =>
    let (st', blockLba) := st.allocateFreeBlock
    allocateAccesses st ++
      if blockLba = 0 then []
      else
        let chunkSize := min (data.length - bytesWritten) 512
        let st := st'.writeSector blockLba (chunkSector data bytesWritten chunkSize)
        span src bytesWritten chunkSize ++ span .sectorBuf 0 chunkSize ++
          if k < 10 then
            ⟨.directBlocks, k⟩ :: writeBlocksAccesses src data n (k + 1) st
              (setDirect ino k blockLba) (bytesWritten + chunkSize)
          else
            (if ino.indirectBlock = 0 then allocateAccesses st else []) ++
              match st.ensureIndirect ino with
              | (_, none) => []
              | (st, some ino) =>
                let lba := ino.indirectBlock.toNat
                let st := st.writeSector lba
                  ((st.disk lba).setPointer (k - 10) (UInt16.ofNat blockLba))
                ⟨.indirectBuf, k - 10⟩ :: writeBlocksAccesses src data n (k + 1) st ino
                  (bytesWritten + chunkSize)

/-- The accesses of `storePayload`. -/
def storeAccesses (src : Buffer) (st : RexFS) (s : Slot) (ino : NrInode) (data : List UInt8) :
    List (Access Buffer) :=
  if data.length = 0 then [inodeAccess s]
  else if blocksNeeded data.length > 266 then []
  else writeBlocksAccesses src data (blocksNeeded data.length) 0 st ino 0 ++ [inodeAccess s]

/-- The accesses of `rexfs_write` and `rexfs_writehex` up to the file's inode, then those of
`rest` for its slot and the payload. -/
def payloadAccesses (st : RexFS) (cmdArgs : CString)
    (rest : Slot → List UInt8 → List (Access Buffer)) : List (Access Buffer) :=
  if !st.fsMounted ∨ cmdArgs.chars = [] then []
  else
    span .filename 0 ((filenameOf cmdArgs.chars).length + 1) ++
      match payloadOf cmdArgs.chars with
      | none => []
      | some payload =>
        nameScanAccesses st (some 1) (filenameOf cmdArgs.chars) ++
          match st.disk.findInode (·.isEntryOf 1 st.currentDirId (filenameOf cmdArgs.chars)) with
          | none => []
          | some s => freeInodeAccesses st (st.disk.inode s) ++ rest s payload

/-- The accesses of `rexfs_write`. -/
def writeAccesses (st : RexFS) (cmdArgs : CString) : List (Access Buffer) :=
  payloadAccesses st cmdArgs fun s text =>
    let ino := st.disk.inode s
    span (.text text.length) 0 (text.length + 1) ++
      storeAccesses (.text text.length) (st.freeInodeBlocks ino) s (clearPointers ino) text

/-- The accesses of `rexfs_writehex`. -/
def writehexAccesses (st : RexFS) (cmdArgs : CString) (binBuf : UInt32) : List (Access Buffer) :=
  payloadAccesses st cmdArgs fun s hexStr =>
    let ino := st.disk.inode s
    let bytes := (parseHexBytes hexStr).1
    span (.text hexStr.length) 0 (hexStr.length + 1) ++
      if binBuf = 0 then []
      else
        span (.binBuf hexStr.length) 0 bytes.length ++
          storeAccesses (.binBuf hexStr.length) (st.freeInodeBlocks ino) s (clearPointers ino) bytes

/-! ## Reading files -/

/-- The access to the pointer of block `k`; without an indirect block only ten blocks have
one. -/
def pointerAccesses (ino : NrInode) (k : Nat) : List (Access Buffer) :=
  if k < 10 then [⟨.directBlocks, k⟩]
  else if ino.indirectBlock = 0 then []
  else [⟨.indirectBuf, k - 10⟩]

/-- The accesses of the reading loop. It copies to `dst`, or to the console when there is
none. -/
def readAccesses (dst : Option Buffer) (d : Disk) (ino : NrInode) :
    (n k : Nat) → (bytesRead : UInt32) → List (Access Buffer)
  | 0, _, _ => []
  | n + 1, k, bytesRead =>
    pointerAccesses ino k ++
      if 266 ≤ k ∧ ino.indirectBlock ≠ 0 then []
      else
        match blockLbaOf d ino k with
        | none => []
        | some blockLba =>
          if blockLba = 0 then []
          else
            let chunkSize := chunkSizeOf ino.size bytesRead
            let copied := if chunkSize.toNat < 2 ^ 31 then chunkSize.toNat else 0
            span .sectorBuf 0 copied ++ dst.toList.flatMap (span · bytesRead.toNat copied) ++
              readAccesses dst d ino n (k + 1) (bytesRead + chunkSize)

/-- The accesses of the reading loop for a whole file. -/
def fileAccesses (dst : Option Buffer) (d : Disk) (ino : NrInode) : List (Access Buffer) :=
  readAccesses dst d ino ((ino.size + 511).toNat / 512) 0 0

/-- The accesses of `rexfs_cat` and `rexfs_exec` up to the file's inode, then those of `rest`
for it. -/
def openAccesses (st : RexFS) (filename : CString) (rest : NrInode → List (Access Buffer)) :
    List (Access Buffer) :=
  if !st.fsMounted ∨ filename.chars = [] then []
  else
    nameScanAccesses st (some 1) filename.chars ++
      match st.disk.findInode (·.isEntryOf 1 st.currentDirId filename.chars) with
      | none => []
      | some s => rest (st.disk.inode s)

/-- The accesses of `rexfs_cat`. -/
def catAccesses (st : RexFS) (filename : CString) : List (Access Buffer) :=
  openAccesses st filename fun ino => if ino.size = 0 then [] else fileAccesses none st.disk ino

/-- The accesses of `rexfs_exec` until the program starts: the copy to `code_buffer` and the
NEX header in it. -/
def execAccesses (st : RexFS) (filename : CString) (codeBuffer : UInt32) : List (Access Buffer) :=
  openAccesses st filename fun ino =>
    if ino.size < 8 ∨ codeBuffer = 0 then []
    else
      fileAccesses (some (.codeBuffer ino.size)) st.disk ino ++ span (.codeBuffer ino.size) 0 8

/-- The array accesses of a command. -/
def Command.accesses (st : RexFS) : Command → List (Access Buffer)
  | mkdir name | touch name => createAccesses st name
  | cd path => cdAccesses st path
  | pwd => pwdAccesses st
  | ls => lsAccesses st
  | rm name => rmAccesses st name
  | write cmdArgs => writeAccesses st cmdArgs
  | writehex cmdArgs binBuf => writehexAccesses st cmdArgs binBuf
  | cat filename => catAccesses st filename
  | exec filename codeBuffer _ => execAccesses st filename codeBuffer

/-! ## Every loop ends -/

theorem NrInode.length_nameField (ino : NrInode) : ino.nameField.length = 28 :=
  List.length_ofFn

theorem NrInode.length_cName_le (ino : NrInode) : ino.cName.length ≤ 28 := by
  have h := (List.takeWhile_prefix (· ≠ 0) (l := ino.nameField)).length_le
  rwa [ino.length_nameField] at h

theorem strcmpReads_le (s name : List UInt8) : strcmpReads s name ≤ name.length + 1 := by
  induction s, name using strcmpReads.induct with
  | case1 => simp [strcmpReads]
  | case2 => simp [strcmpReads]
  | case3 c s name ih =>
    rw [strcmpReads, if_pos rfl, List.length_cons]
    omega
  | case4 c s b name hne => simp [strcmpReads, hne]

/-- A scan of the table visits at most its 64 slots. -/
theorem scanAccesses_length_le (d : Disk) (p : NrInode → Bool)
    {atInode : NrInode → List (Access Buffer)} {n : Nat} (h : ∀ ino, (atInode ino).length ≤ n) :
    (d.scanAccesses p atInode).length ≤ 64 * (n + 1) := by
  have hvisited : (d.visited p).length ≤ 64 := List.length_filter_le _ _
  have hlog := length_flatMap_le (l := d.visited p)
    (f := fun s => inodeAccess s :: atInode (d.inode s)) (n := n + 1)
    fun s _ => Nat.succ_le_succ (h (d.inode s))
  exact hlog.trans (Nat.mul_le_mul_right _ hvisited)

theorem plainScanAccesses_length_le (d : Disk) (p : NrInode → Bool) :
    (d.plainScanAccesses p).length ≤ 64 :=
  scanAccesses_length_le d p (n := 0) fun _ => Nat.le_refl 0

theorem printAccesses_length_le (ino : NrInode) : (printAccesses ino).length ≤ 29 := by
  rw [printAccesses, length_span]
  exact Nat.succ_le_succ ino.length_cName_le

theorem nameScanAccesses_length_le (st : RexFS) (type : Option UInt16) (name : List UInt8) :
    (nameScanAccesses st type name).length ≤ 1920 := by
  refine scanAccesses_length_le st.disk _ (n := 29) fun ino => ?_
  split
  · rw [strcmpAccesses, length_span]
    exact (strcmpReads_le _ _).trans (by rw [ino.length_nameField])
  · exact Nat.zero_le _

theorem pwdIds_length_le (d : Disk) (n : Nat) (id : UInt16) : (pwdIds d n id).length ≤ n := by
  induction n generalizing id with
  | zero => exact Nat.le_refl 0
  | succ n ih =>
    rw [pwdIds]
    split
    · exact Nat.zero_le _
    · split
      · exact Nat.succ_le_succ (ih _)
      · exact Nat.succ_le_succ (Nat.zero_le n)

theorem pwdAccesses_length_le (st : RexFS) : (pwdAccesses st).length ≤ 10176 := by
  unfold pwdAccesses
  split
  · exact Nat.zero_le _
  · have hids := pwdIds_length_le st.disk 64 st.currentDirId
    have hwalk := length_flatMap_le (l := (pwdIds st.disk 64 st.currentDirId).zipIdx)
      (f := walkAccesses st.disk) (n := 65)
      fun e _ => Nat.succ_le_succ (plainScanAccesses_length_le _ _)
    have hcomponent := length_flatMap_le (l := (pwdIds st.disk 64 st.currentDirId).zipIdx.reverse)
      (f := componentAccesses st.disk) (n := 94) fun e _ => by
        have hscan := plainScanAccesses_length_le st.disk (·.id.toNat = e.1.toNat)
        rw [componentAccesses, List.length_append, List.length_cons]
        split
        · next s _ =>
          have := printAccesses_length_le (st.disk.inode s)
          omega
        · rw [List.length_nil]
          omega
    rw [List.length_zipIdx] at hwalk
    rw [List.length_reverse, List.length_zipIdx] at hcomponent
    rw [List.length_append]
    omega

theorem freeBlockAccesses_length_le (sb : NrSuperblock) (b : Nat) :
    (freeBlockAccesses sb b).length ≤ 1 := by
  unfold freeBlockAccesses
  split
  · exact Nat.zero_le 1
  · exact Nat.le_refl 1

theorem freePointerAccesses_length_le (sb : NrSuperblock) (entry : Access Buffer) (p : UInt16) :
    (freePointerAccesses sb entry p).length ≤ 2 := by
  unfold freePointerAccesses
  split
  · exact Nat.succ_le_succ (freeBlockAccesses_length_le sb _)
  · exact Nat.le_succ 1

theorem freeInodeAccesses_length_le (st : RexFS) (ino : NrInode) :
    (freeInodeAccesses st ino).length ≤ 533 := by
  have hdirect := length_flatMap_le (l := List.finRange 10)
    (f := fun k : Fin 10 =>
      freePointerAccesses st.activeSb ⟨.directBlocks, k.val⟩ (ino.directBlocks k)) (n := 2)
    fun k _ => freePointerAccesses_length_le _ _ _
  rw [List.length_finRange] at hdirect
  unfold freeInodeAccesses
  rw [List.length_append]
  split
  · dsimp only
    rw [List.length_append]
    have hlast := freeBlockAccesses_length_le st.activeSb ino.indirectBlock.toNat
    have hindirect := fun s : Sector => length_flatMap_le (l := List.range 256)
      (f := fun k => freePointerAccesses st.activeSb ⟨.indirectBuf, k⟩ (s.pointer k)) (n := 2)
      fun k _ => freePointerAccesses_length_le _ _ _
    simp only [List.length_range] at hindirect
    have := hindirect (((List.finRange 10).foldl
      (fun st k => st.freePointer (ino.directBlocks k)) st).disk ino.indirectBlock.toNat)
    omega
  · rw [List.length_nil]
    omega

/-- `allocate_free_block` stays inside the bitmap. -/
theorem allocateAccesses_spec (st : RexFS) :
    InBounds Buffer.size (allocateAccesses st) ∧ (allocateAccesses st).length ≤ 512 := by
  unfold allocateAccesses
  split
  · next i _ hfind =>
    have hi := (findFreeBit_some hfind).1
    rw [length_span]
    refine ⟨InBounds.span_iff.mpr (Or.inr ?_), hi⟩
    show 0 + (i + 1) ≤ 512
    omega
  · rw [length_span]
    exact ⟨InBounds.span_iff.mpr (Or.inr (Nat.le_refl 512)), Nat.le_refl 512⟩

/-- The allocation loop stays inside its arrays when the file has at most 266 blocks and the
payload fits in `src`. It makes at most 2049 accesses for each block. -/
theorem writeBlocksAccesses_spec {src : Buffer} {data : List UInt8} (hsrc : data.length ≤ src.size)
    (n k : Nat) (hk : k + n ≤ 266) (st : RexFS) (ino : NrInode) (bytesWritten : Nat) :
    InBounds Buffer.size (writeBlocksAccesses src data n k st ino bytesWritten) ∧
      (writeBlocksAccesses src data n k st ino bytesWritten).length ≤ n * 2049 := by
  induction n generalizing k st ino bytesWritten with
  | zero => exact ⟨.nil, Nat.zero_le _⟩
  | succ n ih =>
    obtain ⟨halloc, hallocLen⟩ := allocateAccesses_spec st
    have hchunk := Nat.min_le_right (data.length - bytesWritten) 512
    have hcopy : InBounds Buffer.size
        (span src bytesWritten (min (data.length - bytesWritten) 512)) :=
      InBounds.span_iff.mpr (by omega)
    have hbuf : InBounds Buffer.size
        (span .sectorBuf 0 (min (data.length - bytesWritten) 512)) :=
      InBounds.span_iff.mpr (Or.inr ((Nat.zero_add _).trans_le hchunk))
    rw [writeBlocksAccesses]
    dsimp only
    split
    · rw [List.append_nil]
      exact ⟨halloc, by omega⟩
    · split
      · next hdirect =>
        obtain ⟨hrest, hrestLen⟩ := ih (k + 1) (by omega)
          (st.allocateFreeBlock.1.writeSector st.allocateFreeBlock.2
            (chunkSector data bytesWritten (min (data.length - bytesWritten) 512)))
          (setDirect ino k st.allocateFreeBlock.2)
          (bytesWritten + min (data.length - bytesWritten) 512)
        simp only [InBounds.append_iff, InBounds.cons_iff, List.length_append, List.length_cons,
          length_span]
        exact ⟨⟨halloc, ⟨hcopy, hbuf⟩, hdirect, hrest⟩, by omega⟩
      · next hindirect =>
        generalize st.allocateFreeBlock.1.writeSector st.allocateFreeBlock.2
          (chunkSector data bytesWritten (min (data.length - bytesWritten) 512)) = st1
        have hindex : k - 10 < 256 := by omega
        obtain ⟨halloc1, halloc1Len⟩ : InBounds Buffer.size
            (if ino.indirectBlock = 0 then allocateAccesses st1 else []) ∧
            (if ino.indirectBlock = 0 then allocateAccesses st1 else []).length ≤ 512 := by
          split
          · exact allocateAccesses_spec st1
          · exact ⟨.nil, Nat.zero_le _⟩
        generalize (if ino.indirectBlock = 0 then allocateAccesses st1 else []) = log1
          at halloc1 halloc1Len ⊢
        split
        · simp only [InBounds.append_iff, List.length_append, length_span, List.length_nil]
          exact ⟨⟨halloc, ⟨hcopy, hbuf⟩, halloc1, .nil⟩, by omega⟩
        · next st2 ino2 _ =>
          obtain ⟨hrest, hrestLen⟩ := ih (k + 1) (by omega)
            (st2.writeSector ino2.indirectBlock.toNat
              ((st2.disk ino2.indirectBlock.toNat).setPointer (k - 10)
                (UInt16.ofNat st.allocateFreeBlock.2))) ino2
            (bytesWritten + min (data.length - bytesWritten) 512)
          simp only [InBounds.append_iff, InBounds.cons_iff, List.length_append, List.length_cons,
            length_span]
          exact ⟨⟨halloc, ⟨hcopy, hbuf⟩, halloc1, hindex, hrest⟩, by omega⟩

theorem inodeAccess_lt (s : Slot) : (inodeAccess s).index < (inodeAccess s).array.size := by
  show 64 * s.index + 63 < 512
  have : s.index < 8 := Nat.mod_lt _ (by decide)
  omega

theorem inodeAccess_inBounds (s : Slot) : InBounds Buffer.size [inodeAccess s] :=
  InBounds.cons_iff.mpr ⟨inodeAccess_lt s, .nil⟩

theorem storeAccesses_spec {src : Buffer} {data : List UInt8} (hsrc : data.length ≤ src.size)
    (st : RexFS) (s : Slot) (ino : NrInode) :
    InBounds Buffer.size (storeAccesses src st s ino data) ∧
      (storeAccesses src st s ino data).length ≤ 545035 := by
  have hslot := inodeAccess_inBounds s
  unfold storeAccesses
  split
  · rw [List.length_singleton]
    exact ⟨hslot, by omega⟩
  · split
    · exact ⟨.nil, Nat.zero_le _⟩
    · obtain ⟨hblocks, hlen⟩ := writeBlocksAccesses_spec hsrc (blocksNeeded data.length) 0
        (by omega) st ino 0
      rw [List.length_append, List.length_singleton]
      exact ⟨InBounds.append_iff.mpr ⟨hblocks, hslot⟩, by omega⟩

/-- Two characters at least for each byte. -/
theorem parseHexBytes_length_le (hex : List UInt8) :
    (parseHexBytes hex).1.length ≤ hex.length / 2 := by
  induction hex using parseHexBytes.induct with
  | case1 => exact Nat.zero_le _
  | case2 => exact Nat.zero_le _
  | case3 c h => rw [parseHexBytes, if_neg h]; exact Nat.zero_le _
  | case4 c rest ih =>
    rw [parseHexBytes, if_pos rfl]
    exact ih.trans (Nat.div_le_div_right (Nat.le_succ _))
  | case5 c1 c2 rest h ih =>
    rw [parseHexBytes, if_neg h]
    show (parseHexBytes rest).1.length + 1 ≤ (rest.length + 1 + 1) / 2
    omega

theorem filenameOf_length_le (cmdArgs : List UInt8) : (filenameOf cmdArgs).length ≤ 31 := by
  have h := (List.takeWhile_prefix (· ≠ 32) (l := cmdArgs.take 31)).length_le
  exact h.trans (List.length_take_le 31 cmdArgs)

theorem payloadOf_length_le {cmdArgs payload : List UInt8} (h : payloadOf cmdArgs = some payload) :
    payload.length ≤ cmdArgs.length := by
  unfold payloadOf at h
  split at h
  · exact absurd h (by simp)
  · have hdrop := (List.drop_suffix (filenameOf cmdArgs).length cmdArgs).length_le
    rw [← Option.some.inj h]
    exact (List.dropWhile_suffix _).length_le.trans hdrop

/-- What one round of the reading loop copies fits in a sector. -/
theorem copied_le (size bytesRead : UInt32) :
    (if (chunkSizeOf size bytesRead).toNat < 2 ^ 31 then (chunkSizeOf size bytesRead).toNat
      else 0) ≤ 512 := by
  unfold chunkSizeOf
  split
  · exact Nat.le_refl 512
  · split
    · omega
    · exact Nat.zero_le _

theorem blockLbaOf_noIndirect (d : Disk) {ino : NrInode} (h : ino.indirectBlock = 0) {k : Nat}
    (hk : 10 ≤ k) : blockLbaOf d ino k = none := by
  rw [blockLbaOf, dif_neg (by omega), if_pos h]

theorem pointerAccesses_length_le (ino : NrInode) (k : Nat) :
    (pointerAccesses ino k).length ≤ 1 := by
  unfold pointerAccesses
  split
  · exact Nat.le_refl 1
  · split
    · exact Nat.zero_le 1
    · exact Nat.le_refl 1

/-- The reading loop makes at most 266 rounds and one access more. -/
theorem readAccesses_length_le (dst : Option Buffer) (d : Disk) (ino : NrInode) (n k : Nat)
    (bytesRead : UInt32) :
    (readAccesses dst d ino n k bytesRead).length ≤ (266 - k) * 1025 + 1 := by
  induction n generalizing k bytesRead with
  | zero => exact Nat.zero_le _
  | succ n ih =>
    have hpointer := pointerAccesses_length_le ino k
    rw [readAccesses, List.length_append]
    split
    · rw [List.length_nil]
      omega
    · next hin =>
      split
      · rw [List.length_nil]
        omega
      · next lba hlba =>
        split
        · rw [List.length_nil]
          omega
        · have hk : k < 266 := by
            by_contra hge
            have h0 : ino.indirectBlock = 0 := by
              by_contra hne
              exact hin ⟨by omega, hne⟩
            rw [blockLbaOf_noIndirect d h0 (by omega)] at hlba
            exact absurd hlba (by simp)
          have hcopied := copied_le ino.size bytesRead
          have hrest := ih (k + 1) (bytesRead + chunkSizeOf ino.size bytesRead)
          have hdst : ∀ m, (dst.toList.flatMap (span · bytesRead.toNat m)).length ≤ m := by
            intro m
            cases dst with
            | none => exact Nat.zero_le m
            | some b => simp
          have hcopy := hdst (if (chunkSizeOf ino.size bytesRead).toNat < 2 ^ 31 then
            (chunkSizeOf ino.size bytesRead).toNat else 0)
          simp only [List.length_append, length_span]
          omega

theorem fileAccesses_length_le (dst : Option Buffer) (d : Disk) (ino : NrInode) :
    (fileAccesses dst d ino).length ≤ 272651 := by
  have h := readAccesses_length_le dst d ino ((ino.size + 511).toNat / 512) 0 0
  rw [fileAccesses]
  omega

theorem createAccesses_length_le (st : RexFS) (name : CString) :
    (createAccesses st name).length ≤ 2012 := by
  unfold createAccesses
  split
  · exact Nat.zero_le _
  · have hscan := nameScanAccesses_length_le st none name.chars
    rw [List.length_append]
    split
    · rw [List.length_nil]
      omega
    · have hfree := plainScanAccesses_length_le st.disk (·.id = 0)
      rw [List.length_append]
      split
      · have hname := List.length_take_le 27 name.chars
        rw [length_span]
        omega
      · rw [List.length_nil]
        omega

theorem cdAccesses_length_le (st : RexFS) (path : CString) :
    (cdAccesses st path).length ≤ 1920 := by
  unfold cdAccesses
  split
  · exact Nat.zero_le _
  · split
    · split
      · exact Nat.zero_le _
      · exact (plainScanAccesses_length_le _ _).trans (by omega)
    · exact nameScanAccesses_length_le _ _ _

theorem lsAccesses_length_le (st : RexFS) : (lsAccesses st).length ≤ 1920 := by
  unfold lsAccesses
  split
  · exact Nat.zero_le _
  · refine scanAccesses_length_le st.disk _ (n := 29) fun ino => ?_
    split
    · exact printAccesses_length_le ino
    · exact Nat.zero_le _

theorem rmAccesses_length_le (st : RexFS) (name : CString) :
    (rmAccesses st name).length ≤ 2454 := by
  unfold rmAccesses
  split
  · exact Nat.zero_le _
  · have hscan := nameScanAccesses_length_le st none name.chars
    rw [List.length_append]
    split
    · rw [List.length_nil]
      omega
    · next s _ =>
      dsimp only
      split
      · have hdir := plainScanAccesses_length_le st.disk
          fun p => p.id ≠ 0 ∧ p.parentId.toNat = (st.disk.inode s).id.toNat
        rw [List.length_append]
        split
        · rw [List.length_nil]
          omega
        · rw [List.length_singleton]
          omega
      · have hfile := freeInodeAccesses_length_le st (st.disk.inode s)
        rw [List.length_append, List.length_singleton]
        omega

theorem payloadAccesses_length_le (st : RexFS) (cmdArgs : CString)
    {rest : Slot → List UInt8 → List (Access Buffer)} {n : Nat}
    (h : ∀ s payload, payload.length ≤ cmdArgs.chars.length → (rest s payload).length ≤ n) :
    (payloadAccesses st cmdArgs rest).length ≤ 2485 + n := by
  unfold payloadAccesses
  split
  · exact Nat.zero_le _
  · have hname := filenameOf_length_le cmdArgs.chars
    rw [List.length_append, length_span]
    split
    · rw [List.length_nil]
      omega
    · next payload hpayload =>
      have hscan := nameScanAccesses_length_le st (some 1) (filenameOf cmdArgs.chars)
      rw [List.length_append]
      split
      · rw [List.length_nil]
        omega
      · next s _ =>
        have hfree := freeInodeAccesses_length_le st (st.disk.inode s)
        have hrest := h s payload (payloadOf_length_le hpayload)
        rw [List.length_append]
        omega

theorem openAccesses_length_le (st : RexFS) (filename : CString)
    {rest : NrInode → List (Access Buffer)} {n : Nat} (h : ∀ ino, (rest ino).length ≤ n) :
    (openAccesses st filename rest).length ≤ 1920 + n := by
  unfold openAccesses
  split
  · exact Nat.zero_le _
  · have hscan := nameScanAccesses_length_le st (some 1) filename.chars
    rw [List.length_append]
    split
    · rw [List.length_nil]
      omega
    · next s _ =>
      have hrest := h (st.disk.inode s)
      omega

theorem writeAccesses_length_le (st : RexFS) (cmdArgs : CString) :
    (writeAccesses st cmdArgs).length ≤ 600000 + 2 * cmdArgs.chars.length := by
  unfold writeAccesses
  refine (payloadAccesses_length_le st cmdArgs (n := 545036 + cmdArgs.chars.length)
    fun s text hlen => ?_).trans (by omega)
  have hsrc : text.length ≤ (Buffer.text text.length).size := Nat.le_succ _
  have hstore := (storeAccesses_spec hsrc (st.freeInodeBlocks (st.disk.inode s)) s
    (clearPointers (st.disk.inode s))).2
  dsimp only
  rw [List.length_append, length_span]
  omega

/-- The bytes that `rexfs_writehex` decodes fit in its buffer. -/
theorem binBuf_size_le (hex : List UInt8) :
    (parseHexBytes hex).1.length ≤ (Buffer.binBuf hex.length).size :=
  (parseHexBytes_length_le hex).trans (Nat.le_succ _)

theorem writehexAccesses_length_le (st : RexFS) (cmdArgs : CString) (binBuf : UInt32) :
    (writehexAccesses st cmdArgs binBuf).length ≤ 600000 + 2 * cmdArgs.chars.length := by
  unfold writehexAccesses
  refine (payloadAccesses_length_le st cmdArgs (n := 545036 + 2 * cmdArgs.chars.length)
    fun s hex hlen => ?_).trans (by omega)
  have hbytes := parseHexBytes_length_le hex
  have hstore := (storeAccesses_spec (binBuf_size_le hex) (st.freeInodeBlocks (st.disk.inode s)) s
    (clearPointers (st.disk.inode s))).2
  dsimp only
  rw [List.length_append, length_span]
  split
  · rw [List.length_nil]
    omega
  · rw [List.length_append, length_span]
    omega

theorem catAccesses_length_le (st : RexFS) (filename : CString) :
    (catAccesses st filename).length ≤ 600000 := by
  unfold catAccesses
  refine (openAccesses_length_le st filename (n := 272651) fun ino => ?_).trans (by omega)
  split
  · exact Nat.zero_le _
  · exact fileAccesses_length_le _ _ _

theorem execAccesses_length_le (st : RexFS) (filename : CString) (codeBuffer : UInt32) :
    (execAccesses st filename codeBuffer).length ≤ 600000 := by
  unfold execAccesses
  refine (openAccesses_length_le st filename (n := 272659) fun ino => ?_).trans (by omega)
  split
  · exact Nat.zero_le _
  · rw [List.length_append, length_span]
    exact Nat.add_le_add_right (fileAccesses_length_le _ _ _) 8

/-- Every loop of a command itself ends, whatever the disk holds. -/
theorem Command.accesses_length_le (st : RexFS) (c : Command) :
    (c.accesses st).length ≤ 600000 + 2 * c.argumentLength := by
  cases c with
  | mkdir name => exact (createAccesses_length_le st name).trans (by omega)
  | cd path => exact (cdAccesses_length_le st path).trans (by omega)
  | pwd => exact (pwdAccesses_length_le st).trans (by omega)
  | ls => exact (lsAccesses_length_le st).trans (by omega)
  | touch name => exact (createAccesses_length_le st name).trans (by omega)
  | rm name => exact (rmAccesses_length_le st name).trans (by omega)
  | write cmdArgs => exact writeAccesses_length_le st cmdArgs
  | writehex cmdArgs binBuf => exact writehexAccesses_length_le st cmdArgs binBuf
  | cat filename => exact (catAccesses_length_le st filename).trans (Nat.le_add_right _ _)
  | exec filename codeBuffer old =>
    exact (execAccesses_length_le st filename codeBuffer).trans (Nat.le_add_right _ _)

end Newrex
