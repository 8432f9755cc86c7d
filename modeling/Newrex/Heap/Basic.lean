import Newrex.Lib.LittleEndian
import Newrex.Trace

/-!
# The kernel heap

The embedding of the allocator in `kernel/kernel.c`. The block list lives in
memory: a block is a header `block_meta_t` (`size`, `is_free`, `next`, four bytes
each) followed by its payload, and all functions follow the `next` pointers from
`heap_head`. `unsigned int` is `Nat` with arithmetic modulo `2 ^ 32`.

A loop over the list takes as fuel a bound on the number of blocks it visits;
`none` means that the bound was not enough.
-/

namespace Newrex

open LittleEndian

def heapSize : Nat := 1024 * 1024

/-- `sizeof(block_meta_t)`. -/
def blockMetaSize : Nat := 12

/-- The address of the array `kernel_heap`, which the linker places page-aligned
inside the 32-bit address space, at neither of its ends. -/
structure KernelHeap where
  addr : Nat
  aligned : addr % 4096 = 0
  pos : 0 < addr
  fits : addr + heapSize < 2 ^ 32

/-- `a + b` and `a - b` of `unsigned int` operands. -/
def add32 (a b : Nat) : Nat := (a + b) % 2 ^ 32
def sub32 (a b : Nat) : Nat := (a + 2 ^ 32 - b) % 2 ^ 32

/-- The memory and the variables of the allocator. -/
structure Heap where
  mem : Nat → UInt8
  heapHead : Nat
  totalBytesAllocated : Nat
  trace : TraceRing

namespace Heap

/-! ## Fields of a block -/

def size (h : Heap) (block : Nat) : Nat := load h.mem 4 block
def isFree (h : Heap) (block : Nat) : Nat := load h.mem 4 (block + 4)
def next (h : Heap) (block : Nat) : Nat := load h.mem 4 (block + 8)

def setSize (h : Heap) (block v : Nat) : Heap := { h with mem := store h.mem 4 block v }
def setIsFree (h : Heap) (block v : Nat) : Heap := { h with mem := store h.mem 4 (block + 4) v }
def setNext (h : Heap) (block v : Nat) : Heap := { h with mem := store h.mem 4 (block + 8) v }

/-! ## Allocating and freeing -/

/-- `init_heap`. -/
def initHeap (kernelHeap : KernelHeap) (h : Heap) : Heap :=
  let h := { h with heapHead := kernelHeap.addr }
  let h := h.setSize h.heapHead (heapSize - blockMetaSize)
  let h := h.setIsFree h.heapHead 1
  h.setNext h.heapHead 0

/-- The body of the loop of `kmalloc` for the block it takes. -/
def takeBlock (h : Heap) (curr size : Nat) : Heap × Nat :=
  let h :=
    if h.size curr > add32 (add32 size blockMetaSize) 4 then
      let newBlock := add32 (add32 curr blockMetaSize) size
      let h := h.setSize newBlock (sub32 (sub32 (h.size curr) size) blockMetaSize)
      let h := h.setIsFree newBlock 1
      let h := h.setNext newBlock (h.next curr)
      let h := h.setSize curr size
      h.setNext curr newBlock
    else h
  let h := h.setIsFree curr 0
  ({ h with
      totalBytesAllocated := add32 h.totalBytesAllocated size
      trace := sysTrace h.trace (.ofLiteral "[MEM] Dynamic Heap Allocation") },
    add32 curr blockMetaSize)

/-- The loop of `kmalloc`. -/
def kmallocLoop (size : Nat) : (fuel : Nat) → Heap → (curr : Nat) → Option (Heap × Nat)
  | 0, _, _ => none
  | fuel + 1, h, curr =>
    if curr = 0 then some (h, 0)
    else if h.isFree curr ≠ 0 ∧ h.size curr ≥ size then some (h.takeBlock curr size)
    else kmallocLoop size fuel h (h.next curr)

/-- `kmalloc`: the heap afterwards and the pointer returned. -/
def kmalloc (h : Heap) (size : UInt32) : Option (Heap × Nat) :=
  kmallocLoop size.toNat heapSize h h.heapHead

/-- The body of the loop of `kfree` for a block that is joined with the next one. -/
def joinNext (h : Heap) (curr : Nat) : Heap :=
  let h := h.setSize curr (add32 (h.size curr) (add32 blockMetaSize (h.size (h.next curr))))
  h.setNext curr (h.next (h.next curr))

/-- The loop of `kfree` that merges free neighbours. -/
def mergeLoop : (fuel : Nat) → Heap → (curr : Nat) → Option Heap
  | 0, _, _ => none
  | fuel + 1, h, curr =>
    if curr = 0 then some h
    else if h.isFree curr ≠ 0 ∧ h.next curr ≠ 0 ∧ h.isFree (h.next curr) ≠ 0 then
      mergeLoop fuel (h.joinNext curr) curr
    else mergeLoop fuel h (h.next curr)

/-- `kfree`. -/
def kfree (h : Heap) (ptr : Nat) : Option Heap :=
  if ptr = 0 then some h
  else
    let block := sub32 ptr blockMetaSize
    let h := h.setIsFree block 1
    mergeLoop heapSize h h.heapHead

/-! ## Statistics -/

/-- The loops of the `heap_get_*` functions: `f` is applied to the accumulator and
to the fields `size` and `is_free` of each block. -/
def foldBlocks (f : Nat → Nat → Nat → Nat) : (fuel : Nat) → Heap → (curr acc : Nat) → Option Nat
  | 0, _, _, _ => none
  | fuel + 1, h, curr, acc =>
    if curr = 0 then some acc
    else foldBlocks f fuel h (h.next curr) (f acc (h.size curr) (h.isFree curr))

def heapGetUsedSize (h : Heap) : Option Nat :=
  foldBlocks (fun used size isFree => if isFree = 0 then add32 used size else used)
    heapSize h h.heapHead 0

def heapGetFreeSize (h : Heap) : Option Nat :=
  foldBlocks (fun freeSz size isFree => if isFree ≠ 0 then add32 freeSz size else freeSz)
    heapSize h h.heapHead 0

def heapGetAllocCount (h : Heap) : Option Nat :=
  foldBlocks (fun count _ isFree => if isFree = 0 then add32 count 1 else count)
    heapSize h h.heapHead 0

def heapGetFreeCount (h : Heap) : Option Nat :=
  foldBlocks (fun count _ isFree => if isFree ≠ 0 then add32 count 1 else count)
    heapSize h h.heapHead 0

end Heap

end Newrex
