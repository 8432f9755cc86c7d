import Newrex.Lib.LittleEndian

/-!
# Rules of the processor

What a 32-bit x86 processor makes of the tables in memory: segment descriptors, the
bitmap of I/O ports behind a task state segment, and page tables of two levels. The
rules are those of the architecture without the extensions PSE and PAE.
-/

namespace X86

open LittleEndian

/-! ## Segment descriptors -/

/-- The eight bytes of a segment descriptor, as the fields that its base and its limit
are split into. -/
structure Descriptor where
  limitLow : UInt16
  baseLow : UInt16
  baseMiddle : UInt8
  access : UInt8
  granularity : UInt8
  baseHigh : UInt8
deriving DecidableEq, Repr

namespace Descriptor

def base (d : Descriptor) : Nat :=
  d.baseLow.toNat + d.baseMiddle.toNat * 2 ^ 16 + d.baseHigh.toNat * 2 ^ 24

/-- The limit in bytes: with the granularity bit set it counts pages. -/
def limit (d : Descriptor) : Nat :=
  let raw := d.limitLow.toNat + d.granularity.toNat % 16 * 2 ^ 16
  if d.granularity.toNat.testBit 7 then raw * 4096 + 4095 else raw

end Descriptor

/-! ## I/O ports -/

/-- Privilege levels in a selector and in EFLAGS. -/
def cplOf (cs : Nat) : Nat := cs % 4
def ioplOf (eflags : Nat) : Nat := eflags / 2 ^ 12 % 4

/-- The offset of the field that holds the offset of the port bitmap. -/
def ioMapBaseOffset : Nat := 102

/-- An access to `port` is allowed: the privilege level is enough, or the bit of the port
lies within the limit of the task state segment and is clear. -/
def IoPermitted (mem : Nat → UInt8) (tss : Descriptor) (cs eflags : Nat) (port : UInt16) : Prop :=
  cplOf cs ≤ ioplOf eflags ∨
    let byte := load mem 2 (tss.base + ioMapBaseOffset) + port.toNat / 8
    byte ≤ tss.limit ∧ (mem ((tss.base + byte) % 2 ^ 32)).toNat.testBit (port.toNat % 8) = false

instance (mem : Nat → UInt8) (tss : Descriptor) (cs eflags : Nat) (port : UInt16) :
    Decidable (IoPermitted mem tss cs eflags port) :=
  inferInstanceAs (Decidable (_ ∨ (_ ∧ _)))

/-! ## Paging -/

/-- The bits of an entry of a page directory or a page table. -/
def present (entry : Nat) : Bool := entry.testBit 0
def userAccess (entry : Nat) : Bool := entry.testBit 2
def frameOf (entry : Nat) : Nat := entry / 4096 * 4096

/-- An entry admits the access of the privilege level. -/
def admits (user : Bool) (entry : Nat) : Bool := present entry && (!user || userAccess entry)

def directoryEntry (mem : Nat → UInt8) (cr3 addr : Nat) : Nat :=
  load mem 4 (frameOf cr3 + 4 * (addr / 2 ^ 22))

def tableEntry (mem : Nat → UInt8) (cr3 addr : Nat) : Nat :=
  load mem 4 (frameOf (directoryEntry mem cr3 addr) + 4 * (addr / 2 ^ 12 % 1024))

/-- The page walk for a linear address; `none` is a page fault. -/
def pageWalk (mem : Nat → UInt8) (cr3 : Nat) (user : Bool) (addr : Nat) : Option Nat :=
  if admits user (directoryEntry mem cr3 addr) then
    if admits user (tableEntry mem cr3 addr) then
      some (frameOf (tableEntry mem cr3 addr) + addr % 4096)
    else none
  else none

/-- Where a directory entry is closed to user mode, every walk from user mode faults. -/
theorem pageWalk_user_none {mem : Nat → UInt8} {cr3 addr : Nat}
    (h : userAccess (directoryEntry mem cr3 addr) = false) :
    pageWalk mem cr3 true addr = none := by
  simp [pageWalk, admits, h]

end X86
