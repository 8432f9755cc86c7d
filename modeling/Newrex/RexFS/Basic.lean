import Mathlib.Data.List.FinRange
import Newrex.Console
import Newrex.Disk

/-!
# RexFS: the file system state and its commands

The embedding of `kernel/rexfs.c`. Each command is a function of the state of
the driver: the disk, the static variables of the file and the console. A
null argument takes the same branch as an empty string in every command, so a
command takes a `CString`.

Three things are recorded beside what the C code keeps:
* `writes`, every `write_sector` call in order (a power cut keeps a prefix of
  them);
* `out`, every console call in order;
* `outOfBounds`, set by an array access outside its array. C gives no meaning to
  what follows. The state that the model computes there is a placeholder, and results
  about the kernel are about runs that never come to it.

The scans of the inode table (`for sector`, `for i`, with `break` or `return`
at the first match) are all `findInode`. `rexfs_write` and `rexfs_writehex`
share the loops that free and refill a file, `freeInodeBlocks` and
`writeBlocks`; `rexfs_mkdir` and `rexfs_touch` share `createInode`.
-/

namespace Newrex

def rexfsMagic : UInt32 := 0x52455821
def rexfsVersion : UInt32 := 1
def rexfsMaxInodes : UInt32 := 64

/-- The static variables of `rexfs.c`. -/
structure MountState where
  fsMounted : Bool
  activeSb : NrSuperblock
  currentDirId : UInt16

/-- The file system: its static variables, the disk and the console log. -/
structure RexFS extends MountState where
  disk : Disk
  writes : List (Nat × Sector)
  out : List Print
  outOfBounds : Bool

namespace RexFS

/-- The state at boot, before `rexfs_init`, with the disk `d`. -/
def boot (d : Disk) : RexFS where
  fsMounted := false
  activeSb := NrSuperblock.zero
  currentDirId := 0
  disk := d
  writes := []
  out := []
  outOfBounds := false

/-- `write_sector`: the controller gets 28 bits of the address. Only the addresses that
`allocate_free_block` returns can have more; `read_sector` is called with constants and 16-bit
pointers here. -/
def writeSector (st : RexFS) (lba : Nat) (buffer : Sector) : RexFS :=
  { st with
    disk := Function.update st.disk (lba % 2 ^ 28) buffer
    writes := st.writes ++ [(lba % 2 ^ 28, buffer)] }

/-- A call of a console routine. -/
def print (st : RexFS) (p : Print) : RexFS := { st with out := st.out ++ [p] }

/-- `print_string_color` of a literal. -/
def printStringColor (st : RexFS) (text : String) (color : UInt8) : RexFS :=
  st.print (.literal text color)

/-- `print_string` of a literal. -/
def printString (st : RexFS) (text : String) : RexFS := st.print (.literal text colorWhite)

/-! ## Formatting and mounting -/

/-- The superblock `rexfs_mkfs` writes for a disk of that capacity: at most 4096
sectors are used. -/
def freshSuperblock (capacity : UInt32) : NrSuperblock :=
  { NrSuperblock.zero with
    magic := rexfsMagic
    version := rexfsVersion
    totalBlocks := if capacity > 4096 then 4096 else capacity
    inodeCount := rexfsMaxInodes
    dataOffset := 11
    cleanShutdown := 1 }

/-- `rexfs_mkfs`, with the capacity that `ata_get_capacity` returned. -/
def rexfsMkfs (st : RexFS) (capacity : UInt32) : RexFS :=
  let st := st.printStringColor "[RexFS] Formatting partition...\n" colorLightCyan
  if capacity = 0 then
    st.printStringColor "Error: Failed to query disk capacity via ATA IDENTIFY.\n" colorLightRed
  else
    let st := st.writeSector 1 (freshSuperblock capacity).toSector
    let st := st.printStringColor "[RexFS] Superblock written.\n" colorLightGreen
    let st := [2, 3, 4, 5, 6, 7, 8, 9].foldl (fun st sector => st.writeSector sector Sector.zero) st
    let st := st.printStringColor "[RexFS] Inode table initialized.\n" colorLightGreen
    let st := st.writeSector 10 Sector.zero
    let st := st.printStringColor "[RexFS] Bitmap initialized.\n" colorLightGreen
    st.printStringColor "[RexFS] Done. Run: mount\n" colorLightGreen

/-- `rexfs_mount`. -/
def rexfsMount (st : RexFS) : RexFS :=
  let sb := NrSuperblock.ofSector (st.disk 1)
  if sb.magic ≠ rexfsMagic then
    st.printStringColor "Error: No valid RexFS signature on disk. Run: mkfs\n" colorLightRed
  else if sb.version ≠ rexfsVersion then
    st.printStringColor "Error: Unsupported RexFS version.\n" colorLightRed
  else
    let st :=
      if sb.cleanShutdown = 0 then
        st.printStringColor "[RexFS] Warning: Filesystem was not cleanly unmounted.\n" colorLightRed
      else
        st.printStringColor "[RexFS] Clean shutdown detected.\n" colorLightGreen
    let sb := { sb with cleanShutdown := 0 }
    let st := st.writeSector 1 sb.toSector
    let st := { st with activeSb := sb, fsMounted := true, currentDirId := 0 }
    st.printStringColor "[RexFS] Mounted successfully.\n" colorLightGreen

/-- `rexfs_unmount`. -/
def rexfsUnmount (st : RexFS) : RexFS :=
  if !st.fsMounted then
    st.printStringColor "Error: Filesystem is not currently mounted.\n" colorLightRed
  else
    let sb := { NrSuperblock.ofSector (st.disk 1) with cleanShutdown := 1 }
    let st := st.writeSector 1 sb.toSector
    let st := { st with fsMounted := false, currentDirId := 0 }
    st.printStringColor "[RexFS] Unmounted successfully.\n" colorLightGreen

/-- `rexfs_init`. -/
def rexfsInit (st : RexFS) : RexFS :=
  if (NrSuperblock.ofSector (st.disk 1)).magic ≠ rexfsMagic then
    let st := st.printStringColor "[RexFS] No filesystem detected. Run: mkfs\n" colorLightRed
    { st with fsMounted := false }
  else
    st.rexfsMount

/-! ## Names and the inode table -/

end RexFS

/-- The stored name of an inode: the characters of the 28-byte field in front
of its first NUL. A field without NUL, which RexFS itself never writes, is read
to its end. -/
def NrInode.cName (ino : NrInode) : List UInt8 := (List.ofFn ino.name).takeWhile (· ≠ 0)

/-- The scan of the inode table: the first slot whose inode satisfies `p`. -/
def Disk.findInode (d : Disk) (p : NrInode → Bool) : Option Slot :=
  (List.finRange 64).find? fun s => p (d.inode s)

/-- `ptr->id != 0 && ptr->parent_id == current_dir_id && strcmp(name, ptr->name) == 0`. -/
def NrInode.isEntry (dir : UInt16) (name : List UInt8) (ino : NrInode) : Bool :=
  ino.id ≠ 0 && ino.parentId = dir && ino.cName = name

/-- `isEntry` with the test `ptr->type == type`. -/
def NrInode.isEntryOf (type dir : UInt16) (name : List UInt8) (ino : NrInode) : Bool :=
  ino.id ≠ 0 && ino.parentId = dir && ino.type = type && ino.cName = name

namespace RexFS

/-- The read-modify-write of one inode slot. -/
def storeInode (st : RexFS) (s : Slot) (ino : NrInode) : RexFS :=
  st.writeSector s.sector ((st.disk s.sector).putInode s.index ino)

/-- The inode that `rexfs_mkdir` and `rexfs_touch` build in slot `s`: all zero,
then the fields below and at most 27 characters of the name. -/
def newInode (s : Slot) (type dir : UInt16) (name : List UInt8) : NrInode where
  id := UInt32.ofNat (s.val + 1)
  size := 0
  type := type
  parentId := dir
  name := fun j => (name.take 27).getD j 0
  directBlocks := fun _ => 0
  indirectBlock := 0
  padding := 0

/-- The common body of `rexfs_mkdir` and `rexfs_touch`, which differ in the
type of the inode and in two messages. -/
def createInode (type : UInt16) (usage created : String) (st : RexFS) (name : CString) : RexFS :=
  if !st.fsMounted then
    st.printStringColor "Error: Filesystem is not mounted.\n" colorLightRed
  else if name.chars = [] then
    st.printStringColor usage colorLightRed
  else
    match st.disk.findInode (·.isEntry st.currentDirId name.chars) with
    | some _ =>
      st.printStringColor "Error: A file or directory with that name already exists.\n" colorLightRed
    | none =>
      match st.disk.findInode (·.id = 0) with
      | some s =>
        let st := st.storeInode s (newInode s type st.currentDirId name.chars)
        st.printStringColor created colorLightGreen
      | none =>
        st.printStringColor "Error: Inode table full (max 64 files/dirs).\n" colorLightRed

/-- `rexfs_mkdir`. -/
def rexfsMkdir : RexFS → CString → RexFS :=
  createInode 2 "Usage: mkdir <name>\n" "Directory created successfully.\n"

/-- `rexfs_touch`. -/
def rexfsTouch : RexFS → CString → RexFS :=
  createInode 1 "Usage: touch <name>\n" "File created successfully.\n"

/-! ## Directories -/

/-- The string `"/"`. -/
def slash : List UInt8 := [47]

/-- The string `".."`. -/
def dotDot : List UInt8 := [46, 46]

/-- `rexfs_cd`. -/
def rexfsCd (st : RexFS) (path : CString) : RexFS :=
  if !st.fsMounted then
    st.printStringColor "Error: Filesystem is not mounted.\n" colorLightRed
  else if path.chars = [] then
    st.printStringColor "Usage: cd <path>\n" colorLightRed
  else if path.chars = slash then
    { st with currentDirId := 0 }
  else if path.chars = dotDot then
    if st.currentDirId = 0 then st
    else
      match st.disk.findInode (·.id.toNat = st.currentDirId.toNat) with
      | some s => { st with currentDirId := (st.disk.inode s).parentId }
      | none => st
  else
    match st.disk.findInode (·.isEntryOf 2 st.currentDirId path.chars) with
    | some s => { st with currentDirId := UInt16.ofNat (st.disk.inode s).id.toNat }
    | none => st.printStringColor "Error: Directory not found.\n" colorLightRed

/-- The loop of `rexfs_pwd` that collects `path_ids`: from `id` upwards, at most
`n` ids. An id that no inode has ends the walk, since `parent` is then 0. -/
def pwdIds (d : Disk) : Nat → UInt16 → List UInt16
  | 0, _ => []
  | n + 1, id =>
    if id = 0 then []
    else
      match d.findInode (·.id.toNat = id.toNat) with
      | some s => id :: pwdIds d n (d.inode s).parentId
      | none => [id]

/-- The console calls that `rexfs_pwd` makes for one element of `path_ids`. -/
def pwdComponent (d : Disk) (id : UInt16) : List Print :=
  match d.findInode (·.id.toNat = id.toNat) with
  | some s => [.char 47, .string (d.inode s).cName colorWhite]
  | none => [.char 47]

/-- `rexfs_pwd`. -/
def rexfsPwd (st : RexFS) : RexFS :=
  if !st.fsMounted then
    st.printStringColor "Error: Filesystem is not mounted.\n" colorLightRed
  else if st.currentDirId = 0 then
    st.printString "/\n"
  else
    let ids := pwdIds st.disk 64 st.currentDirId
    { st with out := st.out ++ ids.reverse.flatMap (pwdComponent st.disk) ++ [.char 10] }

/-! ## Blocks -/

/-- The test of `allocate_free_block` for bit `bit` of byte `i`. -/
def tryBit (b : UInt8) (limit : UInt32) (i bit : Nat) : Option (Nat × Nat) :=
  if Bitmap.isClear b bit then
    if UInt32.ofNat (i * 8 + bit) < limit then some (i, bit) else none
  else none

/-- The search of `allocate_free_block`: the byte and bit of the first clear bit
whose number is below `limit`. -/
def findFreeBit (bitmap : Sector) (limit : UInt32) : Option (Nat × Nat) :=
  (List.range 512).findSome? fun i =>
    if bitmap.byte i ≠ 0xFF then (List.range 8).findSome? (tryBit (bitmap.byte i) limit i)
    else none

/-- `allocate_free_block`: the new state and the LBA, or 0 when the disk is
full. `total_blocks - 11` is an unsigned subtraction. -/
def allocateFreeBlock (st : RexFS) : RexFS × Nat :=
  let bitmap := st.disk 10
  match findFreeBit bitmap (st.activeSb.totalBlocks - 11) with
  | some (i, bit) =>
    (st.writeSector 10 (bitmap.setByte i (Bitmap.mark (bitmap.byte i) bit)),
      (st.activeSb.dataOffset + UInt32.ofNat (i * 8 + bit)).toNat)
  | none => (st, 0)

/-- `free_block`. A block number beyond the bitmap indexes the 512-byte buffer
out of bounds and clears a bit of what lies behind it on the stack. The model
only raises its flag there; `Op.StaysInside` keeps a run away from it. -/
def freeBlock (st : RexFS) (blockLba : Nat) : RexFS :=
  if blockLba < st.activeSb.dataOffset.toNat then st
  else
    let blockIdx := blockLba - st.activeSb.dataOffset.toNat
    let bitmap := st.disk 10
    let byteIdx := blockIdx / 8
    let bitIdx := blockIdx % 8
    if byteIdx < 512 then
      st.writeSector 10 (bitmap.setByte byteIdx (Bitmap.unmark (bitmap.byte byteIdx) bitIdx))
    else
      { st.writeSector 10 bitmap with outOfBounds := true }

/-- `if (block != 0) free_block(block);` -/
def freePointer (st : RexFS) (block : UInt16) : RexFS :=
  if block ≠ 0 then st.freeBlock block.toNat else st

/-- The loops of `rexfs_rm`, `rexfs_write` and `rexfs_writehex` that free the
blocks of a file: the direct blocks, the blocks listed in the indirect block,
and the indirect block. -/
def freeInodeBlocks (st : RexFS) (ino : NrInode) : RexFS :=
  let st := (List.finRange 10).foldl (fun st k => st.freePointer (ino.directBlocks k)) st
  if ino.indirectBlock ≠ 0 then
    let indirectBuf := st.disk ino.indirectBlock.toNat
    let st := (List.range 256).foldl (fun st k => st.freePointer (indirectBuf.pointer k)) st
    st.freeBlock ino.indirectBlock.toNat
  else st

/-- `rexfs_rm`. -/
def rexfsRm (st : RexFS) (name : CString) : RexFS :=
  if !st.fsMounted then
    st.printStringColor "Error: Filesystem is not mounted.\n" colorLightRed
  else if name.chars = [] then
    st.printStringColor "Usage: rm <name>\n" colorLightRed
  else
    match st.disk.findInode (·.isEntry st.currentDirId name.chars) with
    | none => st.printStringColor "Error: File or directory not found.\n" colorLightRed
    | some s =>
      let ino := st.disk.inode s
      if ino.type = 2 ∧ (st.disk.findInode fun p => p.id ≠ 0 ∧ p.parentId.toNat = ino.id.toNat).isSome then
        st.printStringColor "Error: Directory not empty.\n" colorLightRed
      else
        let st := if ino.type = 2 then st else st.freeInodeBlocks ino
        let st := st.storeInode s { st.disk.inode s with id := 0 }
        st.printStringColor "Removed successfully.\n" colorLightGreen

/-! ## Writing files -/

/-- The `return` statement through which `rexfs_write` or `rexfs_writehex`
leaves; both C functions return nothing. -/
inductive WriteExit
  | notMounted
  | usage
  | noPayload
  | notFound
  | noMemory
  | empty
  | tooLarge
  | written
deriving DecidableEq, Repr

/-- The loop that copies the file name out of `cmd_args`: the characters in front
of the first space, at most 31. -/
def filenameOf (cmdArgs : List UInt8) : List UInt8 := (cmdArgs.take 31).takeWhile (· ≠ 32)

/-- What follows the file name, with the spaces in front of it skipped; `none`
when the file name ends the string. -/
def payloadOf (cmdArgs : List UInt8) : Option (List UInt8) :=
  match cmdArgs.drop (filenameOf cmdArgs).length with
  | [] => none
  | rest => some (rest.dropWhile (· = 32))

/-- A sector buffer that holds `chunkSize` bytes of `data` from `off` on, and
zeros after them. -/
def chunkSector (data : List UInt8) (off chunkSize : Nat) : Sector := fun j =>
  if j.val < chunkSize then data.getD (off + j) 0 else 0

/-- The inode with `direct_blocks[k] = blockLba`. -/
def setDirect (ino : NrInode) (k : Nat) (blockLba : Nat) : NrInode :=
  { ino with directBlocks := fun j => if j.val = k then UInt16.ofNat blockLba else ino.directBlocks j }

/-- The allocation of the indirect block on first use, zeroed on disk; `none`
when the disk is full. -/
def ensureIndirect (st : RexFS) (ino : NrInode) : RexFS × Option NrInode :=
  if ino.indirectBlock = 0 then
    let (st, indLba) := st.allocateFreeBlock
    if indLba = 0 then
      (st.printStringColor "Error: Out of disk space for indirect index.\n" colorLightRed, none)
    else
      (st.writeSector indLba Sector.zero, some { ino with indirectBlock := UInt16.ofNat indLba })
  else (st, some ino)

/-- The allocation loop, entered with `n` blocks left to write, block number
`k`, the inode built so far and `bytesWritten`. It returns early when the disk
is full. -/
def writeBlocks (data : List UInt8) :
    (n k : Nat) → RexFS → NrInode → (bytesWritten : Nat) → RexFS × NrInode × Nat
  | 0, _, st, ino, bytesWritten => (st, ino, bytesWritten)
  | n + 1, k, st, ino, bytesWritten =>
    let (st, blockLba) := st.allocateFreeBlock
    if blockLba = 0 then
      (st.printStringColor "Error: Out of disk space.\n" colorLightRed, ino, bytesWritten)
    else
      let chunkSize := min (data.length - bytesWritten) 512
      let st := st.writeSector blockLba (chunkSector data bytesWritten chunkSize)
      let bytesWritten := bytesWritten + chunkSize
      if k < 10 then
        writeBlocks data n (k + 1) st (setDirect ino k blockLba) bytesWritten
      else
        match st.ensureIndirect ino with
        | (st, none) => (st, ino, bytesWritten)
        | (st, some ino) =>
          let lba := ino.indirectBlock.toNat
          let st := st.writeSector lba ((st.disk lba).setPointer (k - 10) (UInt16.ofNat blockLba))
          writeBlocks data n (k + 1) st ino bytesWritten

/-- The inode with all its block pointers zero, as the freeing loop of
`rexfs_write` leaves the copy of the inode. -/
def clearPointers (ino : NrInode) : NrInode :=
  { ino with directBlocks := fun _ => 0, indirectBlock := 0 }

/-- `(len + 511) / 512`. -/
def blocksNeeded (len : Nat) : Nat := (len + 511) / 512

/-- The part of `rexfs_write` and `rexfs_writehex` after the old blocks are
freed and the payload `data` is known. `ino` is the copy of the inode in slot
`s` with its pointers cleared. -/
def storePayload (tooLarge written : String) (st : RexFS) (s : Slot) (ino : NrInode)
    (data : List UInt8) : RexFS × WriteExit :=
  if data.length = 0 then
    let st := st.storeInode s { ino with size := 0 }
    (st.printStringColor "File written (empty).\n" colorLightGreen, .empty)
  else if blocksNeeded data.length > 266 then
    (st.printStringColor tooLarge colorLightRed, .tooLarge)
  else
    let (st, ino, bytesWritten) := writeBlocks data (blocksNeeded data.length) 0 st ino 0
    let st := st.storeInode s { ino with size := UInt32.ofNat bytesWritten }
    (st.printStringColor written colorLightGreen, .written)

/-- `rexfs_write`. -/
def rexfsWrite (st : RexFS) (cmdArgs : CString) : RexFS × WriteExit :=
  if !st.fsMounted then
    (st.printStringColor "Error: Filesystem is not mounted.\n" colorLightRed, .notMounted)
  else if cmdArgs.chars = [] then
    (st.printStringColor "Usage: write <file> <text>\n" colorLightRed, .usage)
  else
    match payloadOf cmdArgs.chars with
    | none => (st.printStringColor "Error: No text payload provided.\n" colorLightRed, .noPayload)
    | some text =>
      match st.disk.findInode (·.isEntryOf 1 st.currentDirId (filenameOf cmdArgs.chars)) with
      | none =>
        (st.printStringColor "Error: File not found. Create it with 'touch' first.\n" colorLightRed,
          .notFound)
      | some s =>
        let ino := st.disk.inode s
        let st := st.freeInodeBlocks ino
        storePayload "Error: Text payload exceeds maximum file size (133 KB).\n"
          "File written successfully.\n" st s (clearPointers ino) text

/-- The value of one hex digit; any other character counts as 0. -/
def hexDigit (c : UInt8) : UInt8 :=
  if 48 ≤ c ∧ c ≤ 57 then c - 48
  else if 97 ≤ c ∧ c ≤ 102 then c - 97 + 10
  else if 65 ≤ c ∧ c ≤ 70 then c - 65 + 10
  else 0

/-- The parsing loop of `rexfs_writehex`: the bytes stored in `bin_buf`, and
whether the loop ended with the warning about an odd number of digits. -/
def parseHexBytes : List UInt8 → List UInt8 × Bool
  | [] => ([], false)
  | [c1] => if c1 = 32 then ([], false) else ([], true)
  | c1 :: c2 :: rest =>
    if c1 = 32 then parseHexBytes (c2 :: rest)
    else
      let (bytes, odd) := parseHexBytes rest
      (((hexDigit c1 <<< 4) + hexDigit c2) :: bytes, odd)

/-- `rexfs_writehex`, with the address that `kmalloc` returned for the buffer. -/
def rexfsWritehex (st : RexFS) (cmdArgs : CString) (binBuf : UInt32) : RexFS × WriteExit :=
  if !st.fsMounted then
    (st.printStringColor "Error: Filesystem is not mounted.\n" colorLightRed, .notMounted)
  else if cmdArgs.chars = [] then
    (st.printStringColor "Usage: writehex <file> <hex_string>\n" colorLightRed, .usage)
  else
    match payloadOf cmdArgs.chars with
    | none => (st.printStringColor "Error: No hex payload provided.\n" colorLightRed, .noPayload)
    | some hexStr =>
      match st.disk.findInode (·.isEntryOf 1 st.currentDirId (filenameOf cmdArgs.chars)) with
      | none =>
        (st.printStringColor "Error: File not found. Create it with 'touch' first.\n" colorLightRed,
          .notFound)
      | some s =>
        let ino := st.disk.inode s
        let st := st.freeInodeBlocks ino
        if binBuf = 0 then
          (st.printStringColor "Error: Out of memory for parsing hex.\n" colorLightRed, .noMemory)
        else
          let (bytes, odd) := parseHexBytes hexStr
          let st :=
            if odd then
              st.printStringColor
                "Warning: Odd number of hex characters. Ignoring trailing digit.\n" colorYellow
            else st
          storePayload "Error: Payload exceeds maximum file size (133 KB).\n"
            "Hex file written successfully.\n" st s (clearPointers ino) bytes

/-! ## Reading files -/

/-- `block_lba` for block `k` in the reading loop of `rexfs_cat`; `none` when
there is no indirect block. -/
def blockLbaOf (d : Disk) (ino : NrInode) (k : Nat) : Option Nat :=
  if h : k < 10 then some (ino.directBlocks ⟨k, h⟩).toNat
  else if ino.indirectBlock = 0 then none
  else some ((d ino.indirectBlock.toNat).pointer (k - 10)).toNat

/-- `chunk_size`, an `int` initialised from `inode.size - bytes_printed`: a value
from 2^31 on is negative, so that nothing is copied for it. -/
def chunkSizeOf (size bytesRead : UInt32) : UInt32 :=
  if 512 < (size - bytesRead).toNat ∧ (size - bytesRead).toNat < 2 ^ 31 then 512
  else size - bytesRead

/-- The reading loop of `rexfs_cat`, with `n` blocks left, block number `k` and
`bytesRead` bytes read: the bytes it reads, and whether it indexed the indirect
buffer out of bounds, where the model stops. -/
def readBlocks (d : Disk) (ino : NrInode) : (n k : Nat) → (bytesRead : UInt32) → List UInt8 × Bool
  | 0, _, _ => ([], false)
  | n + 1, k, bytesRead =>
    if 266 ≤ k ∧ ino.indirectBlock ≠ 0 then ([], true)
    else
      match blockLbaOf d ino k with
      | none => ([], false)
      | some blockLba =>
        if blockLba = 0 then ([], false)
        else
          let chunkSize := chunkSizeOf ino.size bytesRead
          let copied := if chunkSize.toNat < 2 ^ 31 then chunkSize.toNat else 0
          let (rest, oob) := readBlocks d ino n (k + 1) (bytesRead + chunkSize)
          ((List.range copied).map (d blockLba).byte ++ rest, oob)

/-- The bytes of a file as `rexfs_cat` finds them: `(inode.size + 511) / 512`
blocks in 32-bit arithmetic. -/
def fileBytes (d : Disk) (ino : NrInode) : List UInt8 × Bool :=
  readBlocks d ino ((ino.size + 511).toNat / 512) 0 0

/-- `rexfs_cat`. -/
def rexfsCat (st : RexFS) (filename : CString) : RexFS :=
  if !st.fsMounted then
    st.printStringColor "Error: Filesystem is not mounted.\n" colorLightRed
  else if filename.chars = [] then
    st.printStringColor "Usage: cat <file>\n" colorLightRed
  else
    match st.disk.findInode (·.isEntryOf 1 st.currentDirId filename.chars) with
    | none => st.printStringColor "Error: File not found.\n" colorLightRed
    | some s =>
      let ino := st.disk.inode s
      if ino.size = 0 then st
      else
        let (bytes, oob) := fileBytes st.disk ino
        { st with
          out := st.out ++ bytes.map Print.char ++ [.char 10]
          outOfBounds := st.outOfBounds || oob }

/-! ## Information and programs -/

/-- An `unsigned int` handed to `print_int`. -/
def printedInt (num : UInt32) : Print := .int num.toInt32.toInt

/-- `rexfs_fsinfo`. -/
def rexfsFsinfo (st : RexFS) : RexFS :=
  if !st.fsMounted then
    { st with out := st.out ++
        [.literal "Filesystem : RexFS\n" colorYellow,
          .literal "Status     : Unmounted\n" colorWhite] }
  else
    { st with out := st.out ++
        [.literal "Filesystem : RexFS\n" colorYellow,
          .literal "Version    : " colorWhite, printedInt st.activeSb.version, .char 10,
          .literal "Inodes     : " colorWhite, printedInt st.activeSb.inodeCount, .char 10,
          .literal "Disk size  : " colorWhite, printedInt st.activeSb.totalBlocks,
          .literal " sectors\n" colorWhite,
          .literal "Data Start : Sector " colorWhite, printedInt st.activeSb.dataOffset, .char 10,
          .literal "Mounted    : Yes\n" colorWhite] }

/-- The line that `rexfs_ls` prints for one entry. -/
def lsLine (ino : NrInode) : List Print :=
  if ino.type = 2 then
    [.literal "  " colorWhite, .literal "[DIR]  " colorYellow, .string ino.cName colorYellow,
      .char 47, .char 10]
  else
    [.literal "  " colorWhite, .literal "[FILE] " colorWhite, .string ino.cName colorWhite,
      .literal " (" colorWhite, printedInt ino.size, .literal " bytes)" colorWhite, .char 10]

/-- `rexfs_ls`. -/
def rexfsLs (st : RexFS) : RexFS :=
  if !st.fsMounted then
    st.printStringColor "Error: Filesystem is not mounted.\n" colorLightRed
  else
    let st := st.printStringColor "--- RexFS DIRECTORY LISTING ---\n" colorLightCyan
    let entries := ((List.finRange 64).map st.disk.inode).filter fun ino =>
      ino.id ≠ 0 ∧ ino.parentId = st.currentDirId
    if entries = [] then st.printString "  (empty directory)\n"
    else { st with out := st.out ++ entries.flatMap lsLine }

/-- A NEX program as `rexfs_exec` starts it: the memory image and the offset of its entry
point. -/
structure NexImage where
  code : List UInt8
  entryOffset : Nat

/-- `rexfs_exec`, with the address that `kmalloc` returned and what the buffer held before:
the loop leaves the bytes behind a missing block as they were. The program itself runs as a
task; its output is not part of the log. -/
def rexfsExec (st : RexFS) (filename : CString) (codeBuffer : UInt32) (old : Nat → UInt8) :
    RexFS × Option NexImage :=
  if !st.fsMounted then
    (st.printStringColor "Error: Filesystem is not mounted.\n" colorLightRed, none)
  else if filename.chars = [] then
    (st.printStringColor "Usage: exec <file>\n" colorLightRed, none)
  else
    match st.disk.findInode (·.isEntryOf 1 st.currentDirId filename.chars) with
    | none => (st.printStringColor "Error: File not found.\n" colorLightRed, none)
    | some s =>
      let ino := st.disk.inode s
      if ino.size < 8 then
        (st.printStringColor "Error: File is too small to be an executable.\n" colorLightRed, none)
      else if codeBuffer = 0 then
        (st.printStringColor "Error: Out of memory loading executable.\n" colorLightRed, none)
      else
        let (bytes, oob) := fileBytes st.disk ino
        let st := { st with outOfBounds := st.outOfBounds || oob }
        let byte := fun i => bytes.getD i (old i)
        let entryOffset := (byte 6).toNat + 256 * (byte 7).toNat
        if [byte 0, byte 1, byte 2, byte 3] ≠ [78, 69, 88, 33] then
          (st.printStringColor "Error: Invalid executable signature (expected NEX!).\n"
            colorLightRed, none)
        else if ino.size.toNat ≤ entryOffset then
          (st.printStringColor "Error: Executable entry point out of bounds.\n" colorLightRed, none)
        else
          let st := st.printStringColor "[Kernel] Executing program in Ring 3...\n" colorLightCyan
          (st.printStringColor "\n[Kernel] Program returned safely.\n" colorLightGreen,
            some ⟨(List.range ino.size.toNat).map byte, entryOffset⟩)

end RexFS

end Newrex
