import Mathlib.Data.Fintype.Basic
import Mathlib.Tactic.FinCases
import Newrex.Lib.Pic

/-!
# The interrupt descriptor table

`hal/idt.c`, and the end of `rtl8139_init` of `drivers/rtl8139.c`, which adds the handler of the
network card.

* `gate_offset`: the processor puts the address of a handler together again;
* `initInterrupts_ends` and `bootedIdt_gated`: the initialization ends whatever state the
  controllers are in, and then every gate leads to a handler of the kernel;
* `unmasked_iff` and `isrOf_vector`: the lines of the timer, the keyboard, the mouse and the card
  come through, and each has the vector of its handler;
* `software_interrupt_iff`: a program of the lowest privilege can use the gate 0x80 only.
-/

namespace Newrex

open Pic PortIO

/-- `idt_entry_struct`. -/
structure IdtEntry where
  isrLow : UInt16
  kernelCs : UInt16
  reserved : UInt8
  attributes : UInt8
  isrHigh : UInt16

abbrev Idt := UInt8 → IdtEntry

/-- `idt_ptr_struct`. -/
structure IdtPtr where
  limit : UInt16
  base : UInt32
deriving DecidableEq

/-- The handlers that gates can lead to. -/
inductive Isr
  | default
  | timer
  | keyboard
  | mouse
  | syscall
  | rtl8139
deriving DecidableEq

/-! ## What the processor makes of an entry -/

namespace IdtEntry

def offset (e : IdtEntry) : UInt32 := e.isrLow.toUInt32 ||| e.isrHigh.toUInt32 <<< 16

def present (e : IdtEntry) : Bool := e.attributes &&& 0x80 != 0

/-- A gate of 32 bits that disables interrupts. -/
def interruptGate (e : IdtEntry) : Bool := e.attributes &&& 0x1F == 0x0E

/-- The lowest privilege that may use the gate with the instruction `int`. -/
def dpl (e : IdtEntry) : UInt8 := e.attributes >>> 5 &&& 3

theorem dpl_le (e : IdtEntry) : e.dpl ≤ 3 := UInt8.le_iff_toNat_le.mpr Nat.and_le_right

/-- The gate is one to the kernel's handler `address`. -/
def LeadsTo (e : IdtEntry) (address : UInt32) : Prop :=
  e.offset = address ∧ e.kernelCs = 0x08 ∧ e.present = true ∧ e.interruptGate = true

end IdtEntry

/-- The entry of the vector lies within the limit of the table. -/
def IdtPtr.Holds (r : IdtPtr) (vector : UInt8) : Prop := 8 * vector.toNat + 7 ≤ r.limit.toNat

instance (r : IdtPtr) (vector : UInt8) : Decidable (r.Holds vector) :=
  inferInstanceAs (Decidable (_ ≤ _))

/-! ## The code -/

/-- The assignments of the two functions below. -/
def gateEntry (attributes : UInt8) (isrAddress : UInt32) : IdtEntry where
  isrLow := (isrAddress &&& 0xFFFF).toUInt16
  kernelCs := 0x08
  reserved := 0
  attributes := attributes
  isrHigh := (isrAddress >>> 16 &&& 0xFFFF).toUInt16

/-- `set_idt_gate_user`. -/
def setIdtGateUser (idt : Idt) (vector : UInt8) (isrAddress : UInt32) : Idt :=
  Function.update idt vector (gateEntry 0xEE isrAddress)

/-- `set_idt_gate`. -/
def setIdtGate (idt : Idt) (vector : UInt8) (isrAddress : UInt32) : Idt :=
  Function.update idt vector (gateEntry 0x8E isrAddress)

/-- `init_idt`; `address` is where the linker puts the handlers, and `base` where it puts the
table. -/
def initIdt (address : Isr → UInt32) (base : UInt32) (idt : Idt) : Driver (IdtPtr × Idt) := do
  .outp 0x20 0x11; .outp 0xA0 0x11
  .outp 0x21 0x20; .outp 0xA1 0x28
  .outp 0x21 0x04; .outp 0xA1 0x02
  .outp 0x21 0x01; .outp 0xA1 0x01
  let idt := (List.range 256).foldl
    (fun idt i => setIdtGate idt (UInt8.ofNat i) (address .default)) idt
  let idt := setIdtGate idt 32 (address .timer)
  let idt := setIdtGate idt 33 (address .keyboard)
  let idt := setIdtGate idt 44 (address .mouse)
  let idt := setIdtGateUser idt 128 (address .syscall)
  .outp 0x21 0xF8
  .outp 0xA1 0xEF
  pure (⟨8 * 256 - 1, base⟩, idt)

/-- The end of `rtl8139_init`. -/
def rtl8139Gate (address : Isr → UInt32) (idt : Idt) (irq : UInt8) : Driver Idt := do
  let idt := setIdtGate idt (32 + irq) (address .rtl8139)
  if irq < 8 then
    let mask ← .input 0x21
    .outp 0x21 (mask.toUInt32 &&& ~~~(1 <<< irq.toUInt32)).toUInt16
  else
    let mask ← .input 0xA1
    .outp 0xA1 (mask.toUInt32 &&& ~~~(1 <<< (irq.toUInt32 - 8))).toUInt16
  pure idt

/-- Both, with the line of the card if there is one. -/
def initInterrupts (address : Isr → UInt32) (base : UInt32) (idt : Idt) (nic : Option UInt8) :
    Driver (IdtPtr × Idt) := do
  let (idtPtr, idt) ← initIdt address base idt
  match nic with
  | some irq => do
    let idt ← rtl8139Gate address idt irq
    pure (idtPtr, idt)
  | none => pure (idtPtr, idt)

/-! ## The table -/

/-- The handler that `init_idt` means for a vector. -/
def kernelIsr (vector : UInt8) : Isr :=
  if vector = 32 then .timer
  else if vector = 33 then .keyboard
  else if vector = 44 then .mouse
  else if vector = 128 then .syscall
  else .default

/-- The handler of a vector, with the line of the card. -/
def isrOf : Option UInt8 → UInt8 → Isr
  | none, vector => kernelIsr vector
  | some irq, vector => if vector = 32 + irq then .rtl8139 else kernelIsr vector

/-- The processor puts the two halves of the address together. -/
theorem gate_offset (attributes : UInt8) (isrAddress : UInt32) :
    (gateEntry attributes isrAddress).offset = isrAddress := by
  have hmask (n : Nat) : n % 2 ^ 16 &&& 65535 = n % 2 ^ 16 := by
    rw [show 65535 = 2 ^ 16 - 1 from rfl, Nat.and_two_pow_sub_one_eq_mod, Nat.mod_mod]
  have hlow : isrAddress.toNat % 2 ^ 16 < 2 ^ 16 := Nat.mod_lt _ (by decide)
  have hlt : isrAddress.toNat < 2 ^ 32 := isrAddress.toNat_lt
  refine UInt32.toNat_inj.mp ?_
  calc (gateEntry attributes isrAddress).offset.toNat =
        (isrAddress.toNat % 2 ^ 16 &&& 65535) |||
          (isrAddress.toNat / 2 ^ 16 % 2 ^ 16 &&& 65535) * 2 ^ 16 % 2 ^ 32 := by
        simp [gateEntry, IdtEntry.offset, Nat.shiftRight_eq_div_pow, Nat.shiftLeft_eq]
    _ = isrAddress.toNat % 2 ^ 16 ||| 2 ^ 16 * (isrAddress.toNat / 2 ^ 16) := by
        rw [hmask, hmask]
        congr 1
        omega
    _ = 2 ^ 16 * (isrAddress.toNat / 2 ^ 16) + isrAddress.toNat % 2 ^ 16 := by
        rw [Nat.two_pow_add_eq_or_of_lt hlow, Nat.or_comm]
    _ = isrAddress.toNat := Nat.div_add_mod _ _

/-- Each gate leads to the address `isr v`, and a program of the lowest privilege may use those
with the property `user`. -/
def Gated (idt : Idt) (isr : UInt8 → UInt32) (user : UInt8 → Prop) : Prop :=
  ∀ v, (idt v).LeadsTo (isr v) ∧ ((idt v).dpl = 3 ↔ user v)

theorem kernelGate (isrAddress : UInt32) :
    (gateEntry 0x8E isrAddress).LeadsTo isrAddress ∧ (gateEntry 0x8E isrAddress).dpl ≠ 3 := by
  have hgate : (0x8E : UInt8) &&& 0x80 != 0 ∧ (0x8E : UInt8) &&& 0x1F == 0x0E ∧
      (0x8E : UInt8) >>> 5 &&& 3 ≠ 3 := by decide
  exact ⟨⟨gate_offset _ _, rfl, hgate.1, hgate.2.1⟩, hgate.2.2⟩

theorem userGate (isrAddress : UInt32) :
    (gateEntry 0xEE isrAddress).LeadsTo isrAddress ∧ (gateEntry 0xEE isrAddress).dpl = 3 := by
  have hgate : (0xEE : UInt8) &&& 0x80 != 0 ∧ (0xEE : UInt8) &&& 0x1F == 0x0E ∧
      (0xEE : UInt8) >>> 5 &&& 3 = 3 := by decide
  exact ⟨⟨gate_offset _ _, rfl, hgate.1, hgate.2.1⟩, hgate.2.2⟩

theorem Gated.congr {idt : Idt} {isr isr' : UInt8 → UInt32} {user user' : UInt8 → Prop}
    (h : Gated idt isr user) (hisr : ∀ v, isr v = isr' v) (huser : ∀ v, user v ↔ user' v) :
    Gated idt isr' user' :=
  fun v => ⟨hisr v ▸ (h v).1, (h v).2.trans (huser v)⟩

theorem Gated.setIdtGate {idt : Idt} {isr : UInt8 → UInt32} {user : UInt8 → Prop}
    (h : Gated idt isr user) (w : UInt8) (isrAddress : UInt32) :
    Gated (Newrex.setIdtGate idt w isrAddress) (Function.update isr w isrAddress)
      fun v => v ≠ w ∧ user v := by
  intro v
  rw [Newrex.setIdtGate, Function.update_apply, Function.update_apply]
  split
  case isTrue hv =>
    exact ⟨(kernelGate isrAddress).1, iff_of_false (kernelGate isrAddress).2 fun hu => hu.1 hv⟩
  case isFalse hv => exact ⟨(h v).1, (h v).2.trans (and_iff_right hv).symm⟩

theorem Gated.setIdtGateUser {idt : Idt} {isr : UInt8 → UInt32} {user : UInt8 → Prop}
    (h : Gated idt isr user) (w : UInt8) (isrAddress : UInt32) :
    Gated (Newrex.setIdtGateUser idt w isrAddress) (Function.update isr w isrAddress)
      fun v => v = w ∨ user v := by
  intro v
  rw [Newrex.setIdtGateUser, Function.update_apply, Function.update_apply]
  split
  case isTrue hv => exact ⟨(userGate isrAddress).1, iff_of_true (userGate isrAddress).2 (.inl hv)⟩
  case isFalse hv => exact ⟨(h v).1, (h v).2.trans (or_iff_right hv).symm⟩

/-- The loop of `init_idt` over the first `n` vectors. -/
theorem defaultGates (idt : Idt) (isrAddress : UInt32) {n : Nat} {v : UInt8} (hv : v.toNat < n) :
    (List.range n).foldl (fun idt i => setIdtGate idt (UInt8.ofNat i) isrAddress) idt v =
      gateEntry 0x8E isrAddress := by
  induction n with
  | zero => cases hv
  | succ n ih =>
    rw [List.range_succ, List.foldl_append, List.foldl_cons, List.foldl_nil, setIdtGate,
      Function.update_apply]
    split
    case isTrue => rfl
    case isFalse hne =>
      refine ih (Nat.lt_of_le_of_ne (Nat.le_of_lt_succ hv) fun hn => hne ?_)
      rw [← hn, UInt8.ofNat_toNat]

/-- The table after `init_idt`. -/
def kernelIdt (address : Isr → UInt32) (idt : Idt) : Idt :=
  setIdtGateUser (setIdtGate (setIdtGate (setIdtGate ((List.range 256).foldl
    (fun idt i => setIdtGate idt (UInt8.ofNat i) (address .default)) idt)
    32 (address .timer)) 33 (address .keyboard)) 44 (address .mouse)) 128 (address .syscall)

/-- The controllers after the initialization, with their masks. -/
def configured (master slave : UInt8) : Pair :=
  ⟨⟨0x20, 0x04, master, fun _ => false, fun _ => false, .running⟩,
    ⟨0x28, 0x02, slave, fun _ => false, fun _ => false, .running⟩⟩

theorem initIdt_ends (address : Isr → UInt32) (base : UInt32) (idt : Idt) (p : Pair) :
    Ends Pair.device (initIdt address base idt) p
      (configured 0xF8 0xEF, ⟨2047, base⟩, kernelIdt address idt) := ⟨0, rfl⟩

/-- The masks with the line of the card. -/
def masks : Option UInt8 → UInt8 × UInt8
  | none => (0xF8, 0xEF)
  | some irq =>
    if irq < 8 then ((0xF8 : UInt8) &&& ~~~(1 <<< irq), 0xEF)
    else (0xF8, (0xEF : UInt8) &&& ~~~(1 <<< (irq - 8)))

theorem line_eq {irq : UInt8} (hirq : irq < 16) : ∃ i : Fin 16, UInt8.ofNat i.val = irq :=
  ⟨⟨irq.toNat, UInt8.lt_iff_toNat_lt.mp hirq⟩, UInt8.ofNat_toNat⟩

theorem rtl8139Gate_ends (address : Isr → UInt32) (idt : Idt) {irq : UInt8} (hirq : irq < 16) :
    Ends Pair.device (rtl8139Gate address idt irq) (configured 0xF8 0xEF)
      (configured (masks (some irq)).1 (masks (some irq)).2,
        setIdtGate idt (32 + irq) (address .rtl8139)) := by
  obtain ⟨i, rfl⟩ := line_eq hirq
  fin_cases i
  all_goals exact ⟨0, rfl⟩

/-- The table with the gate of the card. -/
def bootedIdt (address : Isr → UInt32) (idt : Idt) : Option UInt8 → Idt
  | none => kernelIdt address idt
  | some irq => setIdtGate (kernelIdt address idt) (32 + irq) (address .rtl8139)

/-- The initialization from any state of the controllers, with a card on any of their lines. -/
theorem initInterrupts_ends (address : Isr → UInt32) (base : UInt32) (idt : Idt)
    {nic : Option UInt8} (hnic : ∀ irq, irq ∈ nic → irq < 16) (p : Pair) :
    Ends Pair.device (initInterrupts address base idt nic) p
      (configured (masks nic).1 (masks nic).2, ⟨2047, base⟩, bootedIdt address idt nic) := by
  refine (initIdt_ends address base idt p).bind ?_
  cases nic with
  | none => exact Ends.pure _ _
  | some irq => exact (rtl8139Gate_ends address _ (hnic irq rfl)).bind (Ends.pure _ _)

theorem kernelIdt_gated (address : Isr → UInt32) (idt : Idt) :
    Gated (kernelIdt address idt) (fun v => address (kernelIsr v)) fun v => v = 128 := by
  have hdefault : Gated ((List.range 256).foldl
      (fun idt i => setIdtGate idt (UInt8.ofNat i) (address .default)) idt)
      (fun _ => address .default) fun _ => False := by
    intro v
    rw [defaultGates idt (address .default) v.toNat_lt]
    exact ⟨(kernelGate _).1, iff_of_false (kernelGate _).2 id⟩
  refine ((((hdefault.setIdtGate 32 (address .timer)).setIdtGate 33
    (address .keyboard)).setIdtGate 44 (address .mouse)).setIdtGateUser 128
    (address .syscall)).congr (fun v => ?_) fun v => ?_
  · rw [kernelIsr]
    simp only [Function.update_apply]
    rcases eq_or_ne v 128 with rfl | hsyscall
    · rfl
    · rw [if_neg hsyscall, if_neg hsyscall]
      rcases eq_or_ne v 44 with rfl | hmouse
      · rfl
      · rw [if_neg hmouse, if_neg hmouse]
        split
        case isTrue hkeyboard =>
          subst hkeyboard
          rfl
        case isFalse =>
          split
          · rfl
          · rfl
  · simp only [and_false, or_false]

theorem card_ne_syscall {irq : UInt8} (hirq : irq < 16) : 128 ≠ 32 + irq := by
  obtain ⟨i, rfl⟩ := line_eq hirq
  have hne : ∀ i : Fin 16, 128 ≠ 32 + UInt8.ofNat i.val := by decide
  exact hne i

theorem isrOf_syscall {nic : Option UInt8} (hnic : ∀ irq, irq ∈ nic → irq < 16) :
    isrOf nic 128 = .syscall := by
  cases nic with
  | none => rfl
  | some irq => exact (if_neg (card_ne_syscall (hnic irq rfl))).trans rfl

/-- Every gate leads to the handler of its vector, and a program of the lowest privilege may use
the one of the system calls only. -/
theorem bootedIdt_gated (address : Isr → UInt32) (idt : Idt) {nic : Option UInt8}
    (hnic : ∀ irq, irq ∈ nic → irq < 16) :
    Gated (bootedIdt address idt nic) (fun v => address (isrOf nic v)) fun v => v = 128 := by
  cases nic with
  | none => exact kernelIdt_gated address idt
  | some irq =>
    refine ((kernelIdt_gated address idt).setIdtGate (32 + irq) (address .rtl8139)).congr
      (fun v => ?_) fun v => ?_
    · rw [Function.update_apply, isrOf]
      split
      · rfl
      · rfl
    · exact ⟨And.right, fun hv =>
        ⟨fun hcard => card_ne_syscall (hnic irq rfl) (hv.symm.trans hcard), hv⟩⟩

/-- What the instruction `int` does with the vector: the address of the handler, or `none` for a
general protection fault. -/
def softwareInterrupt (r : IdtPtr) (idt : Idt) (cpl vector : UInt8) : Option UInt32 :=
  if r.Holds vector ∧ cpl ≤ (idt vector).dpl ∧ (idt vector).present = true then
    some (idt vector).offset
  else none

/-- After the initialization, with a card on any line of the controllers, a program of the lowest
privilege can start the handler of the system calls and no other. -/
theorem software_interrupt_iff (address : Isr → UInt32) (base : UInt32) (idt : Idt)
    {nic : Option UInt8} (hnic : ∀ irq, irq ∈ nic → irq < 16) {p p' : Pair} {r : IdtPtr}
    {idt' : Idt} (h : Ends Pair.device (initInterrupts address base idt nic) p (p', r, idt'))
    (vector : UInt8) (a : UInt32) :
    softwareInterrupt r idt' 3 vector = some a ↔ vector = 128 ∧ a = address .syscall := by
  cases h.unique (initInterrupts_ends address base idt hnic p)
  obtain ⟨⟨hoffset, -, hpresent, -⟩, hdpl⟩ := bootedIdt_gated address idt hnic vector
  have hholds : (⟨2047, base⟩ : IdtPtr).Holds vector := by
    have hlt := vector.toNat_lt
    show 8 * vector.toNat + 7 ≤ 2047
    omega
  have hthree : 3 ≤ (bootedIdt address idt nic vector).dpl ↔ vector = 128 :=
    ⟨fun hle => hdpl.mp (UInt8.le_antisymm (IdtEntry.dpl_le _) hle), fun hv =>
      UInt8.le_of_eq (hdpl.mpr hv).symm⟩
  rw [softwareInterrupt]
  constructor
  · intro hsome
    split at hsome
    case isTrue hgate =>
      cases hthree.mp hgate.2.1
      cases hsome
      exact ⟨rfl, hoffset.trans (congrArg address (isrOf_syscall hnic))⟩
    case isFalse => cases hsome
  · rintro ⟨rfl, rfl⟩
    rw [if_pos ⟨hholds, hthree.mpr rfl, hpresent⟩]
    exact congrArg some (hoffset.trans (congrArg address (isrOf_syscall hnic)))

/-! ## The lines -/

/-- The lines that are free for a card: they exist, and they are neither the cascade nor the line of
the timer, the keyboard or the mouse. -/
def cardLines : List UInt8 := [3, 4, 5, 6, 7, 8, 9, 10, 11, 13, 14, 15]

theorem card_lt {irq : UInt8} (hirq : irq ∈ cardLines) : irq < 16 := by
  have hlt : ∀ irq, irq ∈ cardLines → irq < 16 := by decide +kernel
  exact hlt irq hirq

/-- The line of a number. -/
def lineOf (irq : UInt8) : Line :=
  if irq < 8 then .master ⟨irq.toNat % 8, Nat.mod_lt _ (by decide)⟩
  else .slave ⟨irq.toNat % 8, Nat.mod_lt _ (by decide)⟩

/-- The lines that come through are those of the timer, the keyboard, the mouse and the card, and
each has the vector of its handler. -/
theorem unmasked_iff {nic : Option UInt8} (hnic : ∀ irq, irq ∈ nic → irq ∈ cardLines) (l : Line) :
    (configured (masks nic).1 (masks nic).2).Unmasked l ↔
      l = .master 0 ∨ l = .master 1 ∨ l = .slave 4 ∨ ∃ irq, irq ∈ nic ∧ l = lineOf irq := by
  have hkernel : (∀ i, (configured (masks none).1 (masks none).2).Unmasked (.master i) ↔
        i = 0 ∨ i = 1) ∧
      ∀ k, (configured (masks none).1 (masks none).2).Unmasked (.slave k) ↔ k = 4 := by decide
  have hcard : ∀ irq, irq ∈ cardLines →
      (∀ i, (configured (masks (some irq)).1 (masks (some irq)).2).Unmasked (.master i) ↔
        i = 0 ∨ i = 1 ∨ .master i = lineOf irq) ∧
      ∀ k, (configured (masks (some irq)).1 (masks (some irq)).2).Unmasked (.slave k) ↔
        k = 4 ∨ .slave k = lineOf irq := by decide +kernel
  cases nic with
  | none =>
    cases l with
    | master i => simpa using hkernel.1 i
    | slave k => simpa using hkernel.2 k
  | some irq =>
    cases l with
    | master i => simpa using (hcard irq (hnic irq rfl)).1 i
    | slave k => simpa using (hcard irq (hnic irq rfl)).2 k

/-- Each of these lines has the vector of its handler. -/
theorem isrOf_vector {nic : Option UInt8} (hnic : ∀ irq, irq ∈ nic → irq ∈ cardLines) :
    isrOf nic ((configured (masks nic).1 (masks nic).2).vector (.master 0)) = .timer ∧
      isrOf nic ((configured (masks nic).1 (masks nic).2).vector (.master 1)) = .keyboard ∧
      isrOf nic ((configured (masks nic).1 (masks nic).2).vector (.slave 4)) = .mouse ∧
      ∀ irq, irq ∈ nic →
        isrOf nic ((configured (masks nic).1 (masks nic).2).vector (lineOf irq)) = .rtl8139 := by
  have hcard : ∀ irq, irq ∈ cardLines →
      isrOf (some irq) ((configured 0 0).vector (.master 0)) = .timer ∧
      isrOf (some irq) ((configured 0 0).vector (.master 1)) = .keyboard ∧
      isrOf (some irq) ((configured 0 0).vector (.slave 4)) = .mouse ∧
      isrOf (some irq) ((configured 0 0).vector (lineOf irq)) = .rtl8139 := by decide +kernel
  cases nic with
  | none => exact ⟨rfl, rfl, rfl, nofun⟩
  | some irq =>
    obtain ⟨htimer, hkeyboard, hmouse, hrtl⟩ := hcard irq (hnic irq rfl)
    exact ⟨htimer, hkeyboard, hmouse, fun irq' hirq' => by cases hirq'; exact hrtl⟩

end Newrex
