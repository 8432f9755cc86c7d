import Mathlib.Data.List.Range
import Newrex.Lib.Bitmap
import Newrex.Lib.LittleEndian
import Newrex.Console
import Newrex.Heap.Basic

/-!
# The physical memory manager

The embedding of `mm/pmm.c`: a bitmap with one bit for each frame of 4096 bytes, set
when the frame is in use, and a counter of the set bits. The bitmap is filled once
from the Multiboot information that the boot loader leaves in memory.

The two loops over the Multiboot memory map step through the same records, which
`mmapEntries` lists. Its fuel is the number of 32-bit addresses, so that `none` means
that the loop does not end.
-/

namespace Newrex

open LittleEndian

def pageSize : Nat := 4096

/-- `PMM_CONSERVATIVE_RESERVE_FRAMES`. -/
def pmmConservativeReserveFrames : Nat := 1024

/-! ## Multiboot information -/

/-- The fields of `multiboot_info_t` that are read. -/
def mbiFlags (mem : Nat → UInt8) (mbi : Nat) : Nat := load mem 4 mbi
def mbiMemLower (mem : Nat → UInt8) (mbi : Nat) : Nat := load mem 4 (mbi + 4)
def mbiMemUpper (mem : Nat → UInt8) (mbi : Nat) : Nat := load mem 4 (mbi + 8)
def mbiMmapLength (mem : Nat → UInt8) (mbi : Nat) : Nat := load mem 4 (mbi + 44)
def mbiMmapAddr (mem : Nat → UInt8) (mbi : Nat) : Nat := load mem 4 (mbi + 48)

/-- The fields of `multiboot_memory_map_t` that are read. -/
def entrySize (mem : Nat → UInt8) (entry : Nat) : Nat := load mem 4 entry
def entryBaseAddrLow (mem : Nat → UInt8) (entry : Nat) : Nat := load mem 4 (entry + 4)
def entryBaseAddrHigh (mem : Nat → UInt8) (entry : Nat) : Nat := load mem 4 (entry + 8)
def entryLengthLow (mem : Nat → UInt8) (entry : Nat) : Nat := load mem 4 (entry + 12)
def entryType (mem : Nat → UInt8) (entry : Nat) : Nat := load mem 4 (entry + 20)

/-- The records that `while (mmap_addr < mmap_end)` visits. -/
def mmapEntries (mem : Nat → UInt8) (mmapEnd : Nat) : (fuel : Nat) → (mmapAddr : Nat) →
    Option (List Nat)
  | 0, _ => none
  | fuel + 1, mmapAddr =>
    if mmapAddr < mmapEnd then do
      let rest ← mmapEntries mem mmapEnd fuel (add32 mmapAddr (add32 (entrySize mem mmapAddr) 4))
      some (mmapAddr :: rest)
    else some []

/-- The records of the memory map. -/
def mbiEntries (mem : Nat → UInt8) (mbi : Nat) : Option (List Nat) :=
  mmapEntries mem (add32 (mbiMmapAddr mem mbi) (mbiMmapLength mem mbi)) (2 ^ 32)
    (mbiMmapAddr mem mbi)

/-- `(mbi->mem_lower + mbi->mem_upper + 1024) * 1024`. -/
def mbiTotalBytes (mem : Nat → UInt8) (mbi : Nat) : Nat :=
  (mbiMemLower mem mbi + mbiMemUpper mem mbi + 1024) * 1024 % 2 ^ 32

/-- The test of the first loop for one record. -/
def higherEnd (mem : Nat → UInt8) (highest entry : Nat) : Nat :=
  let regionEnd := add32 (entryBaseAddrLow mem entry) (entryLengthLow mem entry)
  if entryBaseAddrHigh mem entry = 0 ∧ regionEnd > highest then regionEnd else highest

/-- `highest` of `compute_max_blocks_from_mmap`. -/
def mbiHighest (mem : Nat → UInt8) (mbi : Nat) : Option Nat :=
  if mbiFlags mem mbi &&& 64 ≠ 0 then
    (mbiEntries mem mbi).map fun entries => entries.foldl (higherEnd mem) 0
  else if mbiFlags mem mbi &&& 1 ≠ 0 then some (mbiTotalBytes mem mbi)
  else some 0

/-- `compute_max_blocks_from_mmap`. -/
def computeMaxBlocksFromMmap (mem : Nat → UInt8) (mbi : Nat) : Option Nat :=
  (mbiHighest mem mbi).map fun highest =>
    let blocks := highest / pageSize
    let blocks :=
      if blocks < pmmConservativeReserveFrames then pmmConservativeReserveFrames else blocks
    if blocks > 8192 then 8192 else blocks

/-! ## The bitmap -/

/-- The variables of `pmm.c`. The array `memory_bitmap` has 1024 bytes. -/
structure Pmm where
  memoryBitmap : Nat → UInt8
  maxBlocks : Nat
  usedBlocks : Nat

namespace Pmm

/-- The variables at boot. -/
def boot : Pmm := ⟨fun _ => 0, 8192, 0⟩

def setBit (s : Pmm) (bit : Nat) : Pmm :=
  { s with memoryBitmap := Bitmap.setBit s.memoryBitmap bit }

def clearBit (s : Pmm) (bit : Nat) : Pmm :=
  { s with memoryBitmap := Bitmap.clearBit s.memoryBitmap bit }

/-- `test_bit`, as a truth value. -/
def testBit (s : Pmm) (bit : Nat) : Bool := !Bitmap.isClear (s.memoryBitmap (bit / 8)) (bit % 8)

/-- `mark_frames`. The end of the region and its rounding are computed modulo `2 ^ 32`. -/
def markFrames (s : Pmm) (base length : Nat) (used : Bool) : Pmm :=
  let lastFrame := add32 (add32 base length) (pageSize - 1) / pageSize
  let frame := base / pageSize
  (List.range' frame (min lastFrame s.maxBlocks - frame)).foldl
    (fun s frame => if used then s.setBit frame else s.clearBit frame) s

/-- `reserve_conservative_region`. -/
def reserveConservativeRegion (s : Pmm) : Pmm :=
  (List.range (min pmmConservativeReserveFrames s.maxBlocks)).foldl setBit s

/-- `recount_used_blocks`. -/
def recountUsedBlocks (s : Pmm) : Pmm :=
  { s with
    usedBlocks := (List.range s.maxBlocks).foldl
      (fun used i => if s.testBit i then add32 used 1 else used) 0 }

/-- `bitmap_mark_all_used`. -/
def bitmapMarkAllUsed (s : Pmm) : Pmm := { s with memoryBitmap := memset s.memoryBitmap 0 0xFF 1024 }

/-- The body of the second loop for one record. -/
def markEntry (mem : Nat → UInt8) (s : Pmm) (entry : Nat) : Pmm :=
  if entryBaseAddrHigh mem entry = 0 then
    s.markFrames (entryBaseAddrLow mem entry) (entryLengthLow mem entry) (entryType mem entry ≠ 1)
  else s

/-- The part of `pmm_init_from_mmap` that marks the regions of the memory map. -/
def markMemory (mem : Nat → UInt8) (mbi : Nat) (s : Pmm) : Option Pmm :=
  if mbiFlags mem mbi &&& 64 ≠ 0 then
    (mbiEntries mem mbi).map fun entries => entries.foldl (markEntry mem) s
  else if mbiFlags mem mbi &&& 1 ≠ 0 then some (s.markFrames 0 (mbiTotalBytes mem mbi) false)
  else some s

/-- `pmm_init_from_mmap`. -/
def pmmInitFromMmap (mem : Nat → UInt8) (multibootInfoPtr : Nat) (s : Pmm) : Option Pmm :=
  if multibootInfoPtr = 0 then some s
  else do
    let maxBlocks ← computeMaxBlocksFromMmap mem multibootInfoPtr
    let s ← markMemory mem multibootInfoPtr { s.bitmapMarkAllUsed with maxBlocks }
    some s.reserveConservativeRegion.recountUsedBlocks

/-! ## Frames -/

/-- The body of the inner loop of `find_first_free_block`: `some none` is `return -1`. -/
def tryFrame (s : Pmm) (bit : Nat) : Option (Option Nat) :=
  if bit < pmmConservativeReserveFrames then none
  else if bit ≥ s.maxBlocks then some none
  else if !s.testBit bit then some (some bit)
  else none

/-- `find_first_free_block`. -/
def findFirstFreeBlock (s : Pmm) : Option Nat :=
  let start := pmmConservativeReserveFrames
  ((List.range' (start / 8) (s.maxBlocks / 8 - start / 8)).findSome? fun i =>
    if s.memoryBitmap i ≠ 0xFF then (List.range 8).findSome? fun j => s.tryFrame (i * 8 + j)
    else none).join

/-- `pmm_alloc_block`: the state afterwards and the address returned, 0 for none. -/
def pmmAllocBlock (s : Pmm) : Pmm × Nat :=
  if s.usedBlocks ≥ s.maxBlocks then (s, 0)
  else
    match s.findFirstFreeBlock with
    | none => (s, 0)
    | some frame =>
      ({ s.setBit frame with usedBlocks := add32 s.usedBlocks 1 }, frame * pageSize)

/-- `pmm_free_block`. -/
def pmmFreeBlock (s : Pmm) (physicalAddress : Nat) : Pmm :=
  let frame := physicalAddress / pageSize
  if frame < pmmConservativeReserveFrames then s
  else if frame ≥ s.maxBlocks then s
  else { s.clearBit frame with usedBlocks := sub32 s.usedBlocks 1 }

/-- The console output of `pmm_dump_info`. -/
def pmmDumpInfo (s : Pmm) : List Print :=
  [.literal "--- PHYSICAL MEMORY MANAGER ---\n" colorYellow,
    .literal "Tracked frames    : " colorWhite, .int s.maxBlocks,
    .literal "\nUsed frames       : " colorWhite, .int s.usedBlocks,
    .literal "\nFree frames       : " colorWhite, .int (sub32 s.maxBlocks s.usedBlocks),
    .literal "\nTracked RAM       : " colorWhite,
    .int (s.maxBlocks * pageSize % 2 ^ 32 / (1024 * 1024)),
    .literal " MB\nLow reserve       : " colorWhite,
    .int (pmmConservativeReserveFrames * pageSize / (1024 * 1024)),
    .literal " MB (frames 0-" colorWhite, .int (pmmConservativeReserveFrames - 1),
    .literal ")\nBitmap capacity   : 32 MB (8192 frames)\n" colorWhite]

end Pmm

end Newrex
