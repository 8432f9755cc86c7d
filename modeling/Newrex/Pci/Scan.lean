import Mathlib.Data.List.Sort
import Mathlib.Data.Nat.Bitwise
import Newrex.Lib.LittleEndian

/-!
# Enumeration of the PCI bus

`pci_scan_devices` walks over all buses, slots and functions and stops inside a slot at the
first function that does not say "multi-function" in its own header. Only the header of
function 0 speaks for the slot, so functions that lie behind such a one are lost.

* `ConfigSpace.pciReadConfig32_eq`: the address that the driver writes selects the register
  that it means;
* `ConfigSpace.pciScanDevices_eq`: what the scan finds;
* `pci_scan_complete_iff`: it is the complete enumeration exactly when none of the first `max`
  functions is hidden behind another one of its slot (`ConfigSpace.Hidden`);
* `hidden_function_lost`: on a board with such a function the scan misses it.
-/

namespace Newrex

open LittleEndian

/-- PCI configuration space: the 32-bit register with the given number (an offset divided by
four) of a bus, slot and function. -/
abbrev ConfigSpace := Nat → Nat → Nat → Nat → Nat

/-- `pci_device_t`. -/
structure PciDevice where
  bus : Nat
  slot : Nat
  func : Nat
  vendorId : Nat
  deviceId : Nat
  classCode : Nat
  subclass : Nat
deriving DecidableEq, Repr

/-- The order of the enumeration. -/
def PciDevice.Precedes (d e : PciDevice) : Prop :=
  d.bus < e.bus ∨ d.bus = e.bus ∧ (d.slot < e.slot ∨ d.slot = e.slot ∧ d.func < e.func)

instance : IsStrictOrder PciDevice PciDevice.Precedes where
  irrefl := fun d h => by
    rcases h with h | ⟨-, h | ⟨-, h⟩⟩ <;> exact lt_irrefl _ h
  trans := fun d e f hde hef => by
    unfold PciDevice.Precedes at *
    omega

def pciAddress (bus slot func offset : Nat) : Nat :=
  0x80000000 ||| (bus <<< 16) ||| (slot <<< 11) ||| (func <<< 8) ||| (offset &&& 0xFC)

/-! ## Lists that are cut at a length -/

/-- A record is stored while there is room, so the array holds the first `max` of the records
that the loops come to. -/
theorem take_store {α : Type} {max : Int} (found : List α) (d : α) :
    (if ((found.take max.toNat).length : Int) < max then found.take max.toNat ++ [d]
      else found.take max.toNat) = (found ++ [d]).take max.toNat := by
  rw [List.length_take]
  split
  · rw [List.take_of_length_le (show found.length ≤ max.toNat by omega), List.take_of_length_le]
    rw [List.length_append, List.length_singleton]
    omega
  · rw [List.take_append_of_le_length (by omega)]

/-- A loop whose turns each add to what was found. -/
theorem foldl_take {α β : Type} {n : Nat} {turn : List α → β → List α} {new : β → List α}
    (items : List β) (hturn : ∀ b ∈ items, ∀ found, turn (found.take n) b =
      (found ++ new b).take n) (found : List α) :
    items.foldl turn (found.take n) = (found ++ items.flatMap new).take n := by
  induction items generalizing found with
  | nil => simp
  | cons b items ih =>
    obtain ⟨hhead, htail⟩ := List.forall_mem_cons.mp hturn
    rw [List.foldl_cons, hhead, ih htail, List.flatMap_cons, List.append_assoc]

/-- Filtering a list leaves its first `n` members as they are when they all pass. -/
theorem take_filter_eq_take {α : Type} {p : α → Bool} {l : List α} {n : Nat} :
    (l.filter p).take n = l.take n ↔ ∀ a ∈ l.take n, p a = true := by
  constructor
  · intro heq a ha
    rw [← heq] at ha
    exact (List.mem_filter.mp (List.mem_of_mem_take ha)).2
  · intro hall
    have hkept : (l.take n).filter p = l.take n := List.filter_eq_self.mpr hall
    rcases Nat.le_total l.length n with hle | hle
    · rw [List.take_of_length_le hle] at hkept
      rw [hkept]
    · calc (l.filter p).take n = ((l.take n ++ l.drop n).filter p).take n := by
            rw [List.take_append_drop]
        _ = (l.take n ++ (l.drop n).filter p).take n := by rw [List.filter_append, hkept]
        _ = l.take n := by
          rw [List.take_append_of_le_length (by rw [List.length_take]; omega), List.take_take,
            Nat.min_self]

namespace ConfigSpace

/-- What the host bridge answers at port 0xCFC after `address` was written to port 0xCF8. -/
def inl (space : ConfigSpace) (address : Nat) : Nat :=
  if address.testBit 31 then
    space (address >>> 16 % 256) (address >>> 11 % 32) (address >>> 8 % 8) (address >>> 2 % 64)
  else 0xFFFFFFFF

def pciReadConfig32 (space : ConfigSpace) (bus slot func offset : Nat) : Nat :=
  space.inl (pciAddress bus slot func offset)

def pciReadConfig16 (space : ConfigSpace) (bus slot func offset : Nat) : Nat :=
  let value := space.pciReadConfig32 bus slot func offset
  value >>> ((offset &&& 2) * 8) % 65536

def pciReadConfig8 (space : ConfigSpace) (bus slot func offset : Nat) : Nat :=
  let value := space.pciReadConfig32 bus slot func offset
  value >>> ((offset &&& 3) * 8) % 256

/-- The record that `pci_scan_devices` stores for a function. -/
def scanned (space : ConfigSpace) (bus slot func : Nat) : PciDevice :=
  let classReg := space.pciReadConfig32 bus slot func 0x08
  { bus, slot, func
    vendorId := space.pciReadConfig16 bus slot func 0x00
    deviceId := space.pciReadConfig16 bus slot func 0x02
    subclass := classReg >>> 16 &&& 0xFF
    classCode := classReg >>> 24 &&& 0xFF }

/-- The loop over the functions of a slot, for the function numbers that are left. The list is
`out[0..count)`. -/
def scanFunctions (space : ConfigSpace) (max : Int) (bus slot : Nat) :
    List Nat → List PciDevice → List PciDevice
  | [], out => out
  | func :: rest, out =>
    if space.pciReadConfig16 bus slot func 0x00 = 0xFFFF then
      space.scanFunctions max bus slot rest out
    else
      let out := if (out.length : Int) < max then out ++ [space.scanned bus slot func] else out
      let header := space.pciReadConfig8 bus slot func 0x0E
      if header &&& 0x80 = 0 then out else space.scanFunctions max bus slot rest out

/-- One turn of the loop over the slots of a bus. -/
def scanSlot (space : ConfigSpace) (max : Int) (bus : Nat) (out : List PciDevice) (slot : Nat) :
    List PciDevice :=
  if space.pciReadConfig16 bus slot 0 0x00 = 0xFFFF then out
  else space.scanFunctions max bus slot (List.range 8) out

/-- One turn of the loop over the buses. -/
def scanBus (space : ConfigSpace) (max : Int) (out : List PciDevice) (bus : Nat) :
    List PciDevice :=
  (List.range 32).foldl (space.scanSlot max bus) out

/-- The records that `pci_scan_devices` stores; it returns their number. -/
def pciScanDevices (space : ConfigSpace) (max : Int) : List PciDevice :=
  (List.range 256).foldl (space.scanBus max) []

/-! ## The registers that the driver reads -/

theorem pciAddress_eq {bus slot func offset : Nat} (hbus : bus < 256) (hslot : slot < 32)
    (hfunc : func < 8) (hoffset : offset < 256) :
    pciAddress bus slot func offset =
      2 ^ 31 + bus * 2 ^ 16 + slot * 2 ^ 11 + func * 2 ^ 8 + offset / 4 * 4 := by
  have hlow : ∀ o, o < 256 → o &&& 0xFC = o / 4 * 4 := by decide +kernel
  have h1 : 0x80000000 ||| bus <<< 16 = (1 * 2 ^ 15 + bus) <<< 16 :=
    shiftLeft_or_shiftLeft (a := 1) (k := 15) (by omega) 16
  have h2 : (1 * 2 ^ 15 + bus) <<< 16 ||| slot <<< 11 =
      ((1 * 2 ^ 15 + bus) * 2 ^ 5 + slot) <<< 11 :=
    shiftLeft_or_shiftLeft hslot 11
  have h3 : ((1 * 2 ^ 15 + bus) * 2 ^ 5 + slot) <<< 11 ||| func <<< 8 =
      (((1 * 2 ^ 15 + bus) * 2 ^ 5 + slot) * 2 ^ 3 + func) <<< 8 :=
    shiftLeft_or_shiftLeft hfunc 8
  have hoffset' : offset / 4 * 4 < 2 ^ 8 := by omega
  rw [pciAddress, h1, h2, h3, hlow offset hoffset, shiftLeft_or hoffset']
  omega

/-- The address selects the function and the register that it was made for. -/
theorem pciReadConfig32_eq (space : ConfigSpace) {bus slot func offset : Nat} (hbus : bus < 256)
    (hslot : slot < 32) (hfunc : func < 8) (hoffset : offset < 256) :
    space.pciReadConfig32 bus slot func offset = space bus slot func (offset / 4) := by
  have henabled : (pciAddress bus slot func offset).testBit 31 = true := by
    rw [pciAddress_eq hbus hslot hfunc hoffset, Nat.testBit_eq_decide_div_mod_eq, decide_eq_true_eq]
    omega
  rw [pciReadConfig32, inl, if_pos henabled]
  simp only [pciAddress_eq hbus hslot hfunc hoffset, Nat.shiftRight_eq_div_pow]
  congr 1
  all_goals omega

/-! ## The functions that are there -/

/-- The function answers: its vendor id is not 0xFFFF. -/
def Present (space : ConfigSpace) (bus slot func : Nat) : Prop :=
  space bus slot func 0 % 2 ^ 16 ≠ 0xFFFF

/-- The multi-function bit in the header type of the function. -/
def MultiFunction (space : ConfigSpace) (bus slot func : Nat) : Prop :=
  (space bus slot func 3).testBit 23 = true

instance (space : ConfigSpace) (bus slot func : Nat) : Decidable (space.Present bus slot func) :=
  inferInstanceAs (Decidable (_ ≠ _))

instance (space : ConfigSpace) (bus slot func : Nat) :
    Decidable (space.MultiFunction bus slot func) :=
  inferInstanceAs (Decidable (_ = true))

/-- The record of a function: its place and the fields of its registers 0 and 2. -/
def deviceAt (space : ConfigSpace) (bus slot func : Nat) : PciDevice :=
  { bus, slot, func
    vendorId := space bus slot func 0 % 2 ^ 16
    deviceId := space bus slot func 0 / 2 ^ 16 % 2 ^ 16
    classCode := space bus slot func 2 / 2 ^ 24 % 2 ^ 8
    subclass := space bus slot func 2 / 2 ^ 16 % 2 ^ 8 }

section Reads

variable (space : ConfigSpace) {bus slot func : Nat} (hbus : bus < 256) (hslot : slot < 32)
  (hfunc : func < 8)

include hbus hslot hfunc

theorem vendor_eq_ffff :
    space.pciReadConfig16 bus slot func 0x00 = 0xFFFF ↔ ¬ space.Present bus slot func := by
  rw [pciReadConfig16, space.pciReadConfig32_eq hbus hslot hfunc (by decide), Present, not_not]
  rfl

theorem header_and_eq_zero :
    space.pciReadConfig8 bus slot func 0x0E &&& 0x80 = 0 ↔
      ¬ space.MultiFunction bus slot func := by
  rw [pciReadConfig8, space.pciReadConfig32_eq hbus hslot hfunc (by decide), MultiFunction,
    show 0x80 = 2 ^ 7 by rfl, show 256 = 2 ^ 8 by rfl, Nat.and_two_pow, Nat.testBit_mod_two_pow,
    Nat.testBit_shiftRight]
  cases (space bus slot func 3).testBit 23
  · simp
  · simp

theorem scanned_eq : space.scanned bus slot func = space.deviceAt bus slot func := by
  have hmask : ∀ n, n &&& 0xFF = n % 2 ^ 8 := fun n => Nat.and_two_pow_sub_one_eq_mod n 8
  simp only [scanned, deviceAt, pciReadConfig16, hmask,
    space.pciReadConfig32_eq hbus hslot hfunc (show 0x00 < 256 by decide),
    space.pciReadConfig32_eq hbus hslot hfunc (show 0x02 < 256 by decide),
    space.pciReadConfig32_eq hbus hslot hfunc (show 0x08 < 256 by decide),
    Nat.shiftRight_eq_div_pow]
  simp

end Reads

/-! ## What the scan finds -/

/-- Where the loop over the functions of a slot gets: the functions that answer, up to the
first one without the multi-function bit. -/
def reached (space : ConfigSpace) (bus slot : Nat) : List Nat → List Nat
  | [] => []
  | func :: rest =>
    if space.Present bus slot func then
      if space.MultiFunction bus slot func then func :: space.reached bus slot rest else [func]
    else space.reached bus slot rest

section Loops

variable (space : ConfigSpace) (max : Int)

theorem scanFunctions_eq {bus slot : Nat} (hbus : bus < 256) (hslot : slot < 32)
    (funcs : List Nat) (hfuncs : ∀ f ∈ funcs, f < 8) (found : List PciDevice) :
    space.scanFunctions max bus slot funcs (found.take max.toNat) =
      (found ++ (space.reached bus slot funcs).map (space.deviceAt bus slot)).take max.toNat := by
  induction funcs generalizing found with
  | nil => simp [scanFunctions, reached]
  | cons func rest ih =>
    obtain ⟨hfunc, hrest⟩ := List.forall_mem_cons.mp hfuncs
    simp only [scanFunctions, reached, space.vendor_eq_ffff hbus hslot hfunc,
      space.header_and_eq_zero hbus hslot hfunc, space.scanned_eq hbus hslot hfunc, take_store]
    by_cases hpresent : space.Present bus slot func
    · rw [if_neg (not_not_intro hpresent), if_pos hpresent]
      by_cases hmulti : space.MultiFunction bus slot func
      · rw [if_neg (not_not_intro hmulti), if_pos hmulti, ih hrest, List.append_assoc]
        rfl
      · rw [if_pos hmulti, if_neg hmulti]
        rfl
    · rw [if_pos hpresent, if_neg hpresent, ih hrest]

/-- The functions of a slot that the scan comes to. -/
def reachedSlot (bus slot : Nat) : List PciDevice :=
  if space.Present bus slot 0 then
    (space.reached bus slot (List.range 8)).map (space.deviceAt bus slot)
  else []

theorem scanSlot_eq {bus slot : Nat} (hbus : bus < 256) (hslot : slot < 32)
    (found : List PciDevice) :
    space.scanSlot max bus (found.take max.toNat) slot =
      (found ++ space.reachedSlot bus slot).take max.toNat := by
  simp only [scanSlot, reachedSlot, space.vendor_eq_ffff hbus hslot (show 0 < 8 by decide)]
  by_cases hpresent : space.Present bus slot 0
  · rw [if_neg (not_not_intro hpresent), if_pos hpresent]
    exact scanFunctions_eq space max hbus hslot _ (fun f hf => List.mem_range.mp hf) found
  · rw [if_pos hpresent, if_neg hpresent, List.append_nil]

/-- The scan stores the first `max` of the functions that its loops come to. -/
theorem pciScanDevices_eq :
    space.pciScanDevices max = ((List.range 256).flatMap fun bus =>
      (List.range 32).flatMap fun slot => space.reachedSlot bus slot).take max.toNat := by
  have hbuses : ∀ bus ∈ List.range 256, ∀ found : List PciDevice,
      space.scanBus max (found.take max.toNat) bus =
        (found ++ (List.range 32).flatMap fun slot => space.reachedSlot bus slot).take
          max.toNat := by
    intro bus hbus found
    refine foldl_take _ ?_ found
    intro slot hslot found
    exact space.scanSlot_eq max (List.mem_range.mp hbus) (List.mem_range.mp hslot) found
  have hscan := foldl_take (List.range 256) hbuses []
  rw [List.take_nil, List.nil_append] at hscan
  rw [pciScanDevices, hscan]

end Loops

/-! ## The complete enumeration -/

/-- The function belongs into the enumeration: it is function 0 of a slot that is taken, or the
slot is a multi-function one and the function answers. -/
def Listed (space : ConfigSpace) (bus slot func : Nat) : Prop :=
  space.Present bus slot 0 ∧
    (func = 0 ∨ space.MultiFunction bus slot 0 ∧ space.Present bus slot func)

/-- Another function of the slot, in front of this one, lacks the multi-function bit. -/
def Hidden (space : ConfigSpace) (bus slot func : Nat) : Prop :=
  ∃ g, g < func ∧ g ≠ 0 ∧ space.Present bus slot g ∧ ¬ space.MultiFunction bus slot g

instance (space : ConfigSpace) (bus slot func : Nat) : Decidable (space.Listed bus slot func) :=
  inferInstanceAs (Decidable (_ ∧ _))

instance (space : ConfigSpace) (bus slot func : Nat) : Decidable (space.Hidden bus slot func) :=
  inferInstanceAs (Decidable (∃ g, g < func ∧ _))

def enumeratedSlot (space : ConfigSpace) (bus slot : Nat) : List PciDevice :=
  ((List.range 8).filter fun func => space.Listed bus slot func).map (space.deviceAt bus slot)

/-- All functions of the enumeration, in the order of bus, slot and function. -/
def enumerated (space : ConfigSpace) : List PciDevice :=
  (List.range 256).flatMap fun bus => (List.range 32).flatMap fun slot =>
    space.enumeratedSlot bus slot

theorem reached_eq (space : ConfigSpace) (bus slot : Nat) {funcs : List Nat}
    (hsorted : funcs.Pairwise (· < ·)) :
    space.reached bus slot funcs = funcs.filter fun func => space.Present bus slot func ∧
      ∀ g ∈ funcs, g < func → space.Present bus slot g → space.MultiFunction bus slot g := by
  induction funcs with
  | nil => rfl
  | cons func rest ih =>
    obtain ⟨hhead, htail⟩ := List.pairwise_cons.mp hsorted
    have hleast : ∀ g ∈ func :: rest, ¬ g < func := by
      intro g hg hlt
      cases List.mem_cons.mp hg with
      | inl heq => omega
      | inr hmem => exact absurd (hhead g hmem) (by omega)
    rw [reached, List.filter_cons, ih htail]
    by_cases hpresent : space.Present bus slot func
    · have hkept : space.Present bus slot func ∧ ∀ g ∈ func :: rest, g < func →
          space.Present bus slot g → space.MultiFunction bus slot g :=
        ⟨hpresent, fun g hg hlt => absurd hlt (hleast g hg)⟩
      rw [if_pos hpresent, if_pos (decide_eq_true hkept)]
      by_cases hmulti : space.MultiFunction bus slot func
      · -- The head lets the loop go on, so it hides nothing.
        rw [if_pos hmulti]
        congr 1
        refine List.filter_congr fun f hf => ?_
        simp only [List.forall_mem_cons, hmulti, implies_true, true_and]
      · -- The loop ends here, and all that follows is hidden.
        rw [if_neg hmulti]
        congr 1
        refine (List.filter_eq_nil_iff.mpr fun f hf => ?_).symm
        simp only [decide_eq_true_eq, not_and]
        intro _ hall
        exact hmulti (hall func List.mem_cons_self (hhead f hf) hpresent)
    · rw [if_neg hpresent, if_neg (by simp [hpresent])]
      refine List.filter_congr fun f hf => ?_
      simp only [List.forall_mem_cons, hpresent, false_implies, implies_true, true_and]

theorem listed_not_hidden_iff {space : ConfigSpace} {bus slot func : Nat} (hfunc : func < 8)
    (hpresent : space.Present bus slot 0) :
    space.Listed bus slot func ∧ ¬ space.Hidden bus slot func ↔
      space.Present bus slot func ∧ ∀ g ∈ List.range 8, g < func →
        space.Present bus slot g → space.MultiFunction bus slot g := by
  constructor
  · rintro ⟨⟨-, hlisted⟩, hvisible⟩
    rcases hlisted with rfl | ⟨hmulti, hfound⟩
    · exact ⟨hpresent, fun g _ hlt => absurd hlt (Nat.not_lt_zero g)⟩
    · refine ⟨hfound, fun g _ hlt hg => ?_⟩
      rcases Nat.eq_zero_or_pos g with rfl | hpos
      · exact hmulti
      · exact Classical.not_not.mp fun hlast => hvisible ⟨g, hlt, hpos.ne', hg, hlast⟩
  · rintro ⟨hfound, hall⟩
    refine ⟨⟨hpresent, ?_⟩, ?_⟩
    · rcases Nat.eq_zero_or_pos func with hzero | hpos
      · exact .inl hzero
      · exact .inr ⟨hall 0 (by decide) hpos hpresent, hfound⟩
    · rintro ⟨g, hlt, -, hg, hlast⟩
      exact hlast (hall g (List.mem_range.mpr (hlt.trans hfunc)) hlt hg)

/-- In a slot the scan comes to the listed functions that are not hidden. -/
theorem reachedSlot_eq (space : ConfigSpace) (bus slot : Nat) :
    space.reachedSlot bus slot = (space.enumeratedSlot bus slot).filter
      fun d => ¬ space.Hidden d.bus d.slot d.func := by
  have hmap : (space.enumeratedSlot bus slot).filter
        (fun d => ¬ space.Hidden d.bus d.slot d.func) =
      ((List.range 8).filter fun func => space.Listed bus slot func ∧
        ¬ space.Hidden bus slot func).map (space.deviceAt bus slot) := by
    rw [enumeratedSlot, List.filter_map, List.filter_filter]
    congr 1
    refine List.filter_congr fun f _ => ?_
    by_cases hhidden : space.Hidden bus slot f
    · simp [deviceAt, hhidden]
    · simp [deviceAt, hhidden]
  rw [hmap, reachedSlot]
  by_cases hpresent : space.Present bus slot 0
  · rw [if_pos hpresent, space.reached_eq bus slot List.pairwise_lt_range]
    congr 1
    refine List.filter_congr fun f hf => ?_
    rw [decide_eq_decide]
    exact (listed_not_hidden_iff (List.mem_range.mp hf) hpresent).symm
  · rw [if_neg hpresent]
    symm
    rw [List.map_eq_nil_iff, List.filter_eq_nil_iff]
    intro f _
    simp [Listed, hpresent]

/-- The scan is the enumeration without the hidden functions, cut at `max` records. -/
theorem pciScanDevices_eq_filter (space : ConfigSpace) (max : Int) :
    space.pciScanDevices max = (space.enumerated.filter
      fun d => ¬ space.Hidden d.bus d.slot d.func).take max.toNat := by
  rw [pciScanDevices_eq, enumerated, List.filter_flatMap]
  simp only [List.filter_flatMap, reachedSlot_eq]

/-- A list of all functions of the enumeration, each of them once, in their order. -/
structure Enumerates (space : ConfigSpace) (all : List PciDevice) : Prop where
  inOrder : all.Pairwise PciDevice.Precedes
  mem_iff : ∀ d, d ∈ all ↔ d.bus < 256 ∧ d.slot < 32 ∧ d.func < 8 ∧
    space.Listed d.bus d.slot d.func ∧ d = space.deviceAt d.bus d.slot d.func

theorem mem_enumeratedSlot {space : ConfigSpace} {bus slot : Nat} {d : PciDevice} :
    d ∈ space.enumeratedSlot bus slot ↔
      d.func < 8 ∧ space.Listed bus slot d.func ∧ d = space.deviceAt bus slot d.func := by
  rw [enumeratedSlot, List.mem_map]
  constructor
  · rintro ⟨f, hf, rfl⟩
    rw [List.mem_filter, List.mem_range, decide_eq_true_eq] at hf
    exact ⟨hf.1, hf.2, rfl⟩
  · rintro ⟨hfunc, hlisted, hd⟩
    refine ⟨d.func, ?_, hd.symm⟩
    rw [List.mem_filter, List.mem_range, decide_eq_true_eq]
    exact ⟨hfunc, hlisted⟩

theorem place_of_mem {space : ConfigSpace} {bus slot : Nat} {d : PciDevice}
    (h : d ∈ space.enumeratedSlot bus slot) : d.bus = bus ∧ d.slot = slot := by
  obtain ⟨-, -, hd⟩ := mem_enumeratedSlot.mp h
  rw [hd]
  exact ⟨rfl, rfl⟩

theorem mem_enumerated {space : ConfigSpace} {d : PciDevice} :
    d ∈ space.enumerated ↔ d.bus < 256 ∧ d.slot < 32 ∧ d.func < 8 ∧
      space.Listed d.bus d.slot d.func ∧ d = space.deviceAt d.bus d.slot d.func := by
  simp only [enumerated, List.mem_flatMap, List.mem_range]
  constructor
  · rintro ⟨bus, hbus, slot, hslot, hd⟩
    obtain ⟨rfl, rfl⟩ := place_of_mem hd
    exact ⟨hbus, hslot, mem_enumeratedSlot.mp hd⟩
  · rintro ⟨hbus, hslot, hd⟩
    exact ⟨d.bus, hbus, d.slot, hslot, mem_enumeratedSlot.mpr hd⟩

theorem inOrder_enumeratedSlot (space : ConfigSpace) (bus slot : Nat) :
    (space.enumeratedSlot bus slot).Pairwise PciDevice.Precedes := by
  rw [enumeratedSlot, List.pairwise_map]
  refine (List.pairwise_lt_range.filter _).imp ?_
  intro f g hlt
  exact .inr ⟨rfl, .inr ⟨rfl, hlt⟩⟩

theorem enumerates_enumerated (space : ConfigSpace) : space.Enumerates space.enumerated where
  mem_iff := fun _ => mem_enumerated
  inOrder := by
    rw [enumerated, List.pairwise_flatMap]
    constructor
    · intro bus _
      rw [List.pairwise_flatMap]
      refine ⟨fun slot _ => space.inOrder_enumeratedSlot bus slot, ?_⟩
      refine List.pairwise_lt_range.imp fun hlt d hd e he => ?_
      have hplace := place_of_mem hd
      have hplace' := place_of_mem he
      exact .inr ⟨by rw [hplace.1, hplace'.1], .inl (by rw [hplace.2, hplace'.2]; exact hlt)⟩
    · refine List.pairwise_lt_range.imp fun hlt d hd e he => ?_
      obtain ⟨slot, -, hd⟩ := List.mem_flatMap.mp hd
      obtain ⟨slot', -, he⟩ := List.mem_flatMap.mp he
      exact .inl (by rw [(place_of_mem hd).1, (place_of_mem he).1]; exact hlt)

theorem Enumerates.eq {space : ConfigSpace} {all : List PciDevice} (h : space.Enumerates all) :
    all = space.enumerated := by
  have hmem : ∀ d, d ∈ all ↔ d ∈ space.enumerated := fun d =>
    (h.mem_iff d).trans mem_enumerated.symm
  exact h.inOrder.eq_of_mem_iff space.enumerates_enumerated.inOrder hmem

/-- The stored records are the first `max` of the enumeration. -/
def CompleteScan (space : ConfigSpace) (max : Int) (out : List PciDevice) : Prop :=
  ∃ all, space.Enumerates all ∧ out = all.take max.toNat

theorem completeScan_iff {space : ConfigSpace} {max : Int} {out : List PciDevice} :
    space.CompleteScan max out ↔ out = space.enumerated.take max.toNat := by
  constructor
  · rintro ⟨all, hall, hout⟩
    rw [hout, hall.eq]
  · intro hout
    exact ⟨space.enumerated, space.enumerates_enumerated, hout⟩

end ConfigSpace

/-- The scan is complete exactly when none of the first `max` functions of the enumeration lies
behind a function (other than function 0) of its slot that lacks the multi-function bit. -/
theorem pci_scan_complete_iff (space : ConfigSpace) (max : Int) :
    space.CompleteScan max (space.pciScanDevices max) ↔
      ∀ d ∈ space.enumerated.take max.toNat, ¬ space.Hidden d.bus d.slot d.func := by
  rw [ConfigSpace.completeScan_iff, ConfigSpace.pciScanDevices_eq_filter,
    take_filter_eq_take]
  simp only [decide_eq_true_eq]

/-- A board with one multi-function device in slot 3: a plain function 0 with the
multi-function bit, function 1 without it, and function 2. -/
def sampleBoard : ConfigSpace := fun bus slot func register =>
  if bus = 0 ∧ slot = 3 ∧ func < 3 then
    match register with
    | 0 => (0x1000 + func) <<< 16 ||| 0x8086
    | 2 => 0x06010000
    | 3 => if func = 0 then 0x00800000 else 0
    | _ => 0
  else 0xFFFFFFFF

/-- Function 2 of the board is not found, with room for 32 records. -/
theorem hidden_function_lost :
    ¬ sampleBoard.CompleteScan 32 (sampleBoard.pciScanDevices 32) := by
  rw [ConfigSpace.completeScan_iff]
  decide +kernel

end Newrex
