import Newrex.Lib.X86
import Newrex.Sched.Create

/-!
# The descriptor table and the task state segment

`gdt_set_gate` and `write_tss` of `hal/gdt.c`. `write_tss` hands `gdt_set_gate` the
address of the last byte of `tss_entry` as the limit, of which the descriptor keeps the
low 20 bits:

* `writeTss_base` and `writeTss_limit`: what the processor reads out of the descriptor;
* `portsClosed_iff`: for which load addresses of `tss_entry` no I/O port is open to a
  user task, and `ports_open` at another one.
-/

namespace Newrex

open LittleEndian X86

/-- `struct gdt_entry`. -/
abbrev GdtEntry := Descriptor

/-- `sizeof(struct tss_entry_struct)`. -/
def tssSize : Nat := 104

/-- The fields of `tss_entry` that are written. -/
inductive TssField
  | esp0
  | ss0
  | es
  | cs
  | ss
  | ds
  | fs
  | gs
deriving DecidableEq, Repr

def TssField.offset : TssField → Nat
  | .esp0 => 4
  | .ss0 => 8
  | .es => 72
  | .cs => 76
  | .ss => 80
  | .ds => 84
  | .fs => 88
  | .gs => 92

/-- The array `gdt` and the memory. -/
structure Segments where
  gdt : Nat → GdtEntry
  mem : Nat → UInt8

namespace Segments

/-- `gdt_set_gate`. -/
def gdtSetGate (s : Segments) (num : Nat) (base limit : UInt32) (access granularity : UInt8) :
    Segments :=
  let entry : GdtEntry :=
    { baseLow := (base &&& 0xFFFF).toUInt16
      baseMiddle := ((base >>> 16) &&& 0xFF).toUInt8
      baseHigh := ((base >>> 24) &&& 0xFF).toUInt8
      limitLow := (limit &&& 0xFFFF).toUInt16
      granularity := ((limit >>> 16) &&& 0x0F).toUInt8 ||| (granularity &&& 0xF0)
      access }
  { s with gdt := Function.update s.gdt num entry }

/-- `tss_entry.field = value`. -/
def setTss (s : Segments) (tssEntry : UInt32) (field : TssField) (value : Nat) : Segments :=
  { s with mem := store s.mem 4 (tssEntry.toNat + field.offset) value }

/-- `write_tss`, where `tssEntry` is the address of `tss_entry`. -/
def writeTss (s : Segments) (tssEntry : UInt32) (num : Nat) (ss0 : UInt16) (esp0 : UInt32) :
    Segments :=
  let base := tssEntry
  let limit := base + UInt32.ofNat tssSize - 1
  let s := s.gdtSetGate num base limit 0x89 0x40
  let s := { s with mem := memset s.mem tssEntry.toNat 0 tssSize }
  let s := s.setTss tssEntry .ss0 ss0.toNat
  let s := s.setTss tssEntry .esp0 esp0.toNat
  let s := s.setTss tssEntry .cs 0x0B
  let s := s.setTss tssEntry .ss 0x13
  let s := s.setTss tssEntry .es 0x13
  let s := s.setTss tssEntry .ds 0x13
  let s := s.setTss tssEntry .fs 0x13
  let s := s.setTss tssEntry .gs 0x13
  { s with mem := store s.mem 2 (tssEntry.toNat + ioMapBaseOffset) tssSize }

/-! ## What the processor reads -/

theorem low16_toNat (x : UInt32) : (x &&& 0xFFFF).toUInt16.toNat = x.toNat % 2 ^ 16 := by
  have hmask : (0xFFFF : UInt32).toNat = 2 ^ 16 - 1 := rfl
  rw [UInt32.toNat_toUInt16, UInt32.toNat_and, hmask, Nat.and_two_pow_sub_one_eq_mod, Nat.mod_mod]

theorem byteAt_toNat (x : UInt32) {k : UInt32} (hk : k.toNat < 32) :
    ((x >>> k) &&& 0xFF).toUInt8.toNat = x.toNat / 2 ^ k.toNat % 2 ^ 8 := by
  have hmask : (0xFF : UInt32).toNat = 2 ^ 8 - 1 := rfl
  rw [UInt32.toNat_toUInt8, UInt32.toNat_and, hmask, Nat.and_two_pow_sub_one_eq_mod, Nat.mod_mod,
    UInt32.toNat_shiftRight, Nat.shiftRight_eq_div_pow, Nat.mod_eq_of_lt hk]

/-- The high nibble of the limit, with the flag for 32-bit segments. -/
theorem nibbleAt_toNat (x : UInt32) :
    ((((x >>> 16) &&& 0x0F).toUInt8 ||| (0x40 &&& 0xF0)).toNat % 16 = x.toNat / 2 ^ 16 % 2 ^ 4) ∧
      (((x >>> 16) &&& 0x0F).toUInt8 ||| (0x40 &&& 0xF0)).toNat.testBit 7 = false := by
  have hmask : (0x0F : UInt32).toNat = 2 ^ 4 - 1 := rfl
  have hval : ((x >>> 16) &&& 0x0F).toUInt8.toNat = x.toNat / 2 ^ 16 % 2 ^ 4 := by
    rw [UInt32.toNat_toUInt8, UInt32.toNat_and, hmask, Nat.and_two_pow_sub_one_eq_mod,
      UInt32.toNat_shiftRight, Nat.shiftRight_eq_div_pow]
    show x.toNat / 2 ^ 16 % 2 ^ 4 % 2 ^ 8 = _
    omega
  have hnibble : ∀ n, n < 16 → (n ||| 0x40) % 16 = n ∧ (n ||| 0x40).testBit 7 = false := by
    decide
  have hflag : (0x40 &&& 0xF0 : UInt8).toNat = 0x40 := rfl
  rw [UInt8.toNat_or, hval, hflag]
  exact hnibble _ (Nat.mod_lt _ (by decide))

variable (s : Segments) (tssEntry : UInt32) (num : Nat) (ss0 : UInt16) (esp0 : UInt32)

theorem writeTss_gdt : (s.writeTss tssEntry num ss0 esp0).gdt num =
    { baseLow := (tssEntry &&& 0xFFFF).toUInt16
      baseMiddle := ((tssEntry >>> 16) &&& 0xFF).toUInt8
      baseHigh := ((tssEntry >>> 24) &&& 0xFF).toUInt8
      limitLow := ((tssEntry + UInt32.ofNat tssSize - 1) &&& 0xFFFF).toUInt16
      granularity :=
        (((tssEntry + UInt32.ofNat tssSize - 1) >>> 16) &&& 0x0F).toUInt8 ||| (0x40 &&& 0xF0)
      access := 0x89 } :=
  Function.update_self num _ s.gdt

theorem writeTss_base : ((s.writeTss tssEntry num ss0 esp0).gdt num).base = tssEntry.toNat := by
  have hmiddle := byteAt_toNat tssEntry (k := 16) (by decide)
  have hhigh := byteAt_toNat tssEntry (k := 24) (by decide)
  have hlt := tssEntry.toNat_lt
  have h16 : (16 : UInt32).toNat = 16 := rfl
  have h24 : (24 : UInt32).toNat = 24 := rfl
  rw [writeTss_gdt, Descriptor.base, low16_toNat, hmiddle, hhigh, h16, h24]
  omega

/-- The limit argument is the last byte of `tss_entry`, not its offset. -/
theorem writeTss_limit : ((s.writeTss tssEntry num ss0 esp0).gdt num).limit =
    (tssEntry.toNat + (tssSize - 1)) % 2 ^ 20 := by
  have hlimit : (tssEntry + UInt32.ofNat tssSize - 1).toNat =
      (tssEntry.toNat + (tssSize - 1)) % 2 ^ 32 := by
    have hsize : (UInt32.ofNat tssSize).toNat = 104 := rfl
    have hone : (1 : UInt32).toNat = 1 := rfl
    rw [UInt32.toNat_sub, UInt32.toNat_add, hsize, hone, tssSize]
    omega
  obtain ⟨hnibble, hbytes⟩ := nibbleAt_toNat (tssEntry + UInt32.ofNat tssSize - 1)
  rw [writeTss_gdt, Descriptor.limit]
  simp only [low16_toNat, hnibble, hbytes, hlimit, Bool.false_eq_true, if_false]
  omega

/-! ## Ports -/

theorem writeTss_ioMapBase (mem : Nat → UInt8)
    (h : ∀ i, i < 2 → mem (tssEntry.toNat + ioMapBaseOffset + i) =
      (s.writeTss tssEntry num ss0 esp0).mem (tssEntry.toNat + ioMapBaseOffset + i)) :
    load mem 2 (tssEntry.toNat + ioMapBaseOffset) = tssSize := by
  rw [load_congr h]
  exact load_store_same _ 2 _ tssSize


end Segments

/-- The descriptor of `write_tss` for a `tss_entry` at that address has its base and its
limit. A user task as `task_create` starts it reaches no I/O port, whatever the memory holds
by then, as long as `iomap_base` is what `write_tss` stored. -/
def PortsClosed (tssEntry : UInt32) : Prop :=
  ∀ (s : Segments) (num : Nat) (ss0 : UInt16) (esp0 : UInt32),
    let s' := s.writeTss tssEntry num ss0 esp0
    (s'.gdt num).base = tssEntry.toNat ∧ (s'.gdt num).limit = tssSize - 1 ∧
      ∀ (mem start : Nat → UInt8) (c : CreatedTask) (esp : Nat) (port : UInt16),
        (∀ i, i < 2 → mem (tssEntry.toNat + ioMapBaseOffset + i) =
          s'.mem (tssEntry.toNat + ioMapBaseOffset + i)) →
        c.isUser ≠ 0 → FirstRun start c esp →
        ¬ IoPermitted mem (s'.gdt num) (Sched.isrEpilogue start esp).1.cs
          (Sched.isrEpilogue start esp).1.eflags port

/-- The limit is right, and no port open to user tasks, exactly for a `tss_entry` that the
linker places at a multiple of 1 MB. -/
theorem portsClosed_iff (tssEntry : UInt32) :
    PortsClosed tssEntry ↔ tssEntry.toNat % 2 ^ 20 = 0 := by
  constructor
  · intro h
    obtain ⟨_, hlimit, _⟩ := h ⟨fun _ => ⟨0, 0, 0, 0, 0, 0⟩, fun _ => 0⟩ 5 0x10 0
    rw [Segments.writeTss_limit, tssSize] at hlimit
    omega
  · intro h s num ss0 esp0
    have hlimit : ((s.writeTss tssEntry num ss0 esp0).gdt num).limit = tssSize - 1 := by
      rw [Segments.writeTss_limit, tssSize]
      omega
    refine ⟨s.writeTss_base tssEntry num ss0 esp0, hlimit, ?_⟩
    rintro mem start c esp port hmap huser ⟨_, _, _, _, _, _, _, _, heflags, _, huserRegs⟩
    have hcs := (huserRegs huser).1
    simp only [IoPermitted, s.writeTss_base, hlimit, heflags, hcs,
      s.writeTss_ioMapBase tssEntry num ss0 esp0 mem hmap]
    rintro (hlevel | ⟨hbyte, _⟩)
    · exact absurd hlevel (by decide)
    · rw [tssSize] at hbyte
      omega

/-- A `tss_entry` at the page 0x109: the limit is 0x9067, and with zeros behind it the data
port of the disk is open. -/
theorem ports_open :
    ¬ PortsClosed 0x109000 ∧
      let s := Segments.writeTss ⟨fun _ => ⟨0, 0, 0, 0, 0, 0⟩, fun _ => 0⟩ 0x109000 5 0x10 0
      (s.gdt 5).limit = 0x9067 ∧ IoPermitted s.mem (s.gdt 5) 0x1B 0x202 0x1F0 := by
  refine ⟨?_, by decide +kernel, by decide +kernel⟩
  intro h
  obtain ⟨_, hlimit, _⟩ := h ⟨fun _ => ⟨0, 0, 0, 0, 0, 0⟩, fun _ => 0⟩ 5 0x10 0
  exact absurd hlimit (by decide +kernel)

end Newrex
